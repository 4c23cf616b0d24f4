import DecentralizedCloud.Storage.DocumentMap
import DecentralizedCloud.Storage.Reachable

/-!
# Answers in the middle of a command

An answer over a web socket raises when its connection is gone, and what the
command would have done behind it is not done. An object is put under its key
before the answer and linked below the root after it, so that the two records of
an object disagree then (`key_without_link`). What the store says in the end does
not depend on the answers exactly when no change of it follows an answer
(`replies_independent_iff`).
-/

namespace DecentralizedCloud.Storage

open Schedule

/-! ## The condition -/

/-- The store after a command that has come over a web socket. -/
def stateAfter (S : Services) (dht : String → String) (words : List String)
    (channelId txid tid : String) (guid : Guid) (delivery : Response → Delivery) :
    String → String :=
  ((executeStateChangeCommand S { guid, delivery } words "1" channelId txid tid).run dht).1

/-- The hash that the root of a tree links under an id. -/
def linkOf (S : Services) (dht : String → String) (tree : ObjectTree) (tid objectId : String) :
    Option String :=
  if dht (tree.root tid) = "" then none else (edgesOf S (dht (tree.root tid))).at? objectId

/-- There is nothing under the id yet. -/
structure Fresh (S : Services) (contents : String → Option Contents) (dht : String → String)
    (tid : String) (guid : Guid) : Prop where
  object : ∀ tree, linkOf S dht tree tid guid = none
  document : ∀ entityId, dht (documentKey tid entityId guid) = ""
  indexed : ∀ entityId documents, Index contents (dht (dataRootKey tid entityId)) documents →
    documents guid = none

/-- An update has nothing to do: the object is not linked, or the body cannot be merged into
it, or the merged text is the old one, and there is no transaction to record. -/
def Idle (S : Services) (dht : String → String) (tree : ObjectTree)
    (txid tid objectId object : String) : Prop :=
  ∀ hash, linkOf S dht tree tid objectId = some hash →
    ∀ text, updateValues S ((S.objectData hash).getD "") object = some text →
      text = (S.objectData hash).getD "" ∧ (txid = "" ∨ dht (transactionKey hash) = txid)

/-- No change of the store follows an answer of the command. -/
def Settled (S : Services) (dht : String → String) (words : List String) (txid tid : String) :
    Prop :=
  match (stoi (word words 0)).bind Command.ofCode with
  | some .addFunction | some .addTemplate => False
  | some .addDocument => dht (dataRootKey tid (word words 1)) = ""
  | some .updateFunction =>
      Idle S dht .function txid tid (word words 1) (S.base64_decode (word words 2))
  | some .updateTemplate =>
      Idle S dht .template txid tid (word words 1) (S.base64_decode (word words 2))
  | some .deleteFunction => linkOf S dht .function tid (word words 1) = none
  | some .deleteTemplate => linkOf S dht .template tid (word words 1) = none
  | some .updateDocument | some .deleteDocument | none => True

/-- What a program leaves of the store does not depend on the fate of its answers. -/
def Independent (guid : Guid) (p : CommandEnv → Cmd Unit) (dht : String → String) : Prop :=
  ∀ delivery delivery',
    ((p { guid, delivery }).exec dht).1 = ((p { guid, delivery := delivery' }).exec dht).1

variable {S : Services} {contents : String → Option Contents} {dht dht' : String → String}
  {guid : Guid} {p : CommandEnv → Cmd Unit}

theorem independent_of_exec (dht' : String → String)
    (h : ∀ x, x.guid = guid → ((p x).exec dht).1 = dht') :
    Independent guid p dht := by
  intro delivery delivery'
  rw [h _ rfl, h _ rfl]

/-- All answers go out. -/
def sentEnv (guid : Guid) : CommandEnv := { guid, delivery := fun _ => .sent }

/-- No answer goes out. -/
def raisedEnv (guid : Guid) : CommandEnv := { guid, delivery := fun _ => .raised }

@[simp] theorem sentEnv_guid (guid : Guid) : (sentEnv guid).guid = guid := rfl

@[simp] theorem raisedEnv_guid (guid : Guid) : (raisedEnv guid).guid = guid := rfl

theorem delivered_sentEnv (guid : Guid) (source : String) : Delivered (sentEnv guid) source :=
  delivered_sent _ (fun _ => rfl) source

theorem Independent.eq (h : Independent guid p dht) {r r' : Option Unit}
    (hsent : (p (sentEnv guid)).exec dht = (dht', r)) {dht'' : String → String}
    (hraised : (p (raisedEnv guid)).exec dht = (dht'', r')) (key : String) :
    dht' key = dht'' key := by
  have heq : ((p (sentEnv guid)).exec dht).1 = ((p (raisedEnv guid)).exec dht).1 := h _ _
  rw [hsent, hraised] at heq
  exact congrFun heq key

/-! ## Functions and templates -/

section Trees

variable (hS : S.Lawful contents) {tree : ObjectTree} {channelId txid tid objectId object : String}
  {links : String → Option String}

include hS

theorem linkOf_eq (h : Rooted contents (dht (tree.root tid)) links) (objectId : String) :
    linkOf S dht tree tid objectId = links objectId := by
  unfold linkOf
  rcases h with ⟨hempty, rfl⟩ | ⟨data, hroot⟩
  · rw [if_pos hempty]
  · rw [if_neg (hS.ne_empty hroot), hS.at?_edgesOf hroot]

/-- The root of the tree after an answer that raised is the one before it. -/
theorem Independent.root_eq (h : Independent guid p dht)
    (hrooted : Rooted contents (dht (tree.root tid)) links) {r r' : Option Unit}
    (hsent : (p (sentEnv guid)).exec dht = (dht', r)) {value root data : String}
    {links' : String → Option String} (hmoves : Moves tree tid objectId value root dht dht')
    (hroot : contents root = some (data, links'))
    (hraised : (p (raisedEnv guid)).exec dht =
      (Function.update dht (tree.key tid objectId) value, r')) : links = links' := by
  have heq := h.eq hsent hraised (tree.root tid)
  rw [hmoves.root, Function.update_of_ne (tree.key_ne_root tree tid objectId).symm] at heq
  subst heq
  exact hrooted.links_eq hS hroot

theorem exec_addChildNode_raised {hash : String}
    (hhash : contents hash = some (object, fun _ => none)) :
    (addChildNode S (raisedEnv guid) "1" channelId txid tid tree.name object).exec dht =
      (Function.update dht (tree.key tid guid) hash, none) := by
  have hput : S.objectPut object [] = some hash := hS.objectPut_eq_some.mpr hhash
  have hanswer := exec_send_raised (raisedEnv guid) (fun _ => rfl) channelId
  simp [addChildNode, Prog.exec_bind, hput, hanswer]

/-- A new object is put under its key before the answer, and linked after it. -/
theorem addChildNode_not_independent (h : Rooted contents (dht (tree.root tid)) links)
    (hfresh : links guid = none) :
    ¬Independent guid (fun x => addChildNode S x "1" channelId txid tid tree.name object) dht := by
  intro hindependent
  rcases exec_addChildNode hS (delivered_sentEnv guid "1") channelId txid h object with
    ⟨hash, root, data, dht', hhash, hroot, hmoves, hexec⟩
  have hlinks := hindependent.root_eq hS h hexec hmoves hroot (exec_addChildNode_raised hS hhash)
  rw [hlinks] at hfresh
  simp [sentEnv] at hfresh

/-- A delete is independent of its answer if and only if the object is not linked. -/
theorem deleteObject_independent_iff (h : Rooted contents (dht (tree.root tid)) links) :
    Independent guid (fun x => deleteObject S x "1" tree.name channelId txid tid objectId) dht ↔
      linkOf S dht tree tid objectId = none := by
  rw [linkOf_eq hS h]
  constructor
  · intro hindependent
    by_contra hlink
    rcases h.exists_data hlink with ⟨data, hroot⟩
    rcases exec_deleteObject hS (delivered_sentEnv guid "1") channelId txid hroot hlink with
      ⟨root', data', dht', hroot', hmoves, hexec⟩
    have hraised : (deleteObject S (raisedEnv guid) "1" tree.name channelId txid tid
        objectId).exec dht = (Function.update dht (tree.key tid objectId) "", none) := by
      have hanswer := exec_send_raised (raisedEnv guid) (fun _ => rfl) channelId
      simp only [deleteObject, Prog.exec_bind, exec_dhtPut, hanswer]
    have hlinks := hindependent.root_eq hS h hexec hmoves hroot' hraised
    apply hlink
    rw [hlinks, Function.update_self]
  · intro hlink
    apply independent_of_exec
    intro x _
    rw [exec_deleteObject_missing hS channelId txid h hlink]

/-- An update that leaves the text as it is puts it under the key again, and nothing else. -/
theorem exec_updateChildNode_same (x : CommandEnv) {data : String}
    (h : contents (dht (tree.root tid)) = some (data, links)) {hash old : String}
    (hlink : links objectId = some hash) (hold : contents hash = some (old, fun _ => none))
    (hupdated : updateValues S old object = some old)
    (htransaction : txid = "" ∨ dht (transactionKey hash) = txid) :
    ((updateChildNode S x "1" tree.name channelId txid tid objectId object).exec dht).1 =
      Function.update dht (tree.key tid objectId) hash := by
  have hedge : (edgesOf S (dht (tree.root tid))).at? objectId = some hash := by
    rw [hS.at?_edgesOf h, hlink]
  have hput : S.objectPut old [] = some hash := hS.objectPut_eq_some.mpr hold
  have hread : Function.update dht (tree.key tid objectId) hash (tree.root tid) =
      dht (tree.root tid) :=
    Function.update_of_ne (tree.key_ne_root tree tid objectId).symm ..
  have htransaction' : txid = "" ∨
      Function.update dht (tree.key tid objectId) hash (transactionKey hash) = txid := by
    rwa [Function.update_of_ne (tree.key_ne_transactionKey tid objectId hash).symm]
  rw [← hread] at h
  have hlinked := exec_linkToRoot_same hS h hlink (by simp [hold]) htransaction'
  rw [hread] at h
  rcases exec_send x "1" channelId .stateChange txid objectId hash with ⟨_ | _, hanswer⟩ <;>
    simp [updateChildNode, Prog.exec_bind, hS.ne_empty h, hedge, hS.ne_empty hold,
      hS.objectData hold, hupdated, hput, hanswer, hlinked]

theorem exec_updateChildNode_raised {data : String}
    (h : contents (dht (tree.root tid)) = some (data, links)) {oldHash hash old text : String}
    (hlink : links objectId = some oldHash) (hold : contents oldHash = some (old, fun _ => none))
    (hupdated : updateValues S old object = some text)
    (hhash : contents hash = some (text, fun _ => none)) :
    (updateChildNode S (raisedEnv guid) "1" tree.name channelId txid tid objectId object).exec dht =
      (Function.update dht (tree.key tid objectId) hash, none) := by
  have hedge : (edgesOf S (dht (tree.root tid))).at? objectId = some oldHash := by
    rw [hS.at?_edgesOf h, hlink]
  have hput : S.objectPut text [] = some hash := hS.objectPut_eq_some.mpr hhash
  have hanswer := exec_send_raised (raisedEnv guid) (fun _ => rfl) channelId
  simp [updateChildNode, Prog.exec_bind, hS.ne_empty h, hedge, hS.ne_empty hold,
    hS.objectData hold, hupdated, hput, hanswer]

/-- An update puts the merged text under the key before the answer, and links it after it. -/
theorem idle_of_independent (h : Rooted contents (dht (tree.root tid)) links)
    (htexts : ∀ objectId hash, links objectId = some hash → IsText contents hash)
    (hindependent : Independent guid
      (fun x => updateChildNode S x "1" tree.name channelId txid tid objectId object) dht) :
    Idle S dht tree txid tid objectId object := by
  intro oldHash hlink text hupdated
  rw [linkOf_eq hS h] at hlink
  have hne : links objectId ≠ none := by simp [hlink]
  rcases h.exists_data hne with ⟨data, hroot⟩
  rcases htexts objectId oldHash hlink with ⟨old, hold⟩
  rw [hS.objectData hold, Option.getD_some] at hupdated ⊢
  rcases exec_updateChildNode hS (delivered_sentEnv guid "1") channelId txid hroot hlink hold
    hupdated with ⟨hash, root, data', dht', hhash, hroot', hmoves, hrecorded, hexec⟩
  have hraised : (updateChildNode S (raisedEnv guid) "1" tree.name channelId txid tid objectId
      object).exec dht = (Function.update dht (tree.key tid objectId) hash, none) :=
    exec_updateChildNode_raised hS hroot hlink hold hupdated hhash
  -- the link has not moved, so the merged text is the old one
  have hlinks := hindependent.root_eq hS h hexec hmoves hroot' hraised
  have hsame : hash = oldHash := by
    rw [hlinks, Function.update_self, Option.some.injEq] at hlink
    exact hlink
  subst hsame
  rw [hhash, Option.some.injEq, Prod.mk.injEq] at hold
  refine ⟨hold.1, ?_⟩
  by_cases htxid : txid = ""
  · exact .inl htxid
  · have heq := hindependent.eq hexec hraised (transactionKey hash)
    rw [hrecorded htxid, Function.update_of_ne
      (tree.key_ne_transactionKey tid objectId hash).symm] at heq
    exact .inr heq.symm

/-- An update that writes nothing new is independent of its answer. -/
theorem independent_of_idle (h : Rooted contents (dht (tree.root tid)) links)
    (htexts : ∀ objectId hash, links objectId = some hash → IsText contents hash)
    (hidle : Idle S dht tree txid tid objectId object) :
    Independent guid
      (fun x => updateChildNode S x "1" tree.name channelId txid tid objectId object) dht := by
  rcases h with ⟨hempty, rfl⟩ | ⟨data, hroot⟩
  · apply independent_of_exec dht
    intro x _
    -- there is no tree to change
    rcases exec_send x "1" channelId .exception txid objectId msgInvalidObjectId with
      ⟨answered, hanswer⟩
    simp [updateChildNode, Prog.exec_bind, hempty, hanswer]
  cases hlink : links objectId with
  | none =>
      apply independent_of_exec
      intro x _
      -- the object is not linked
      rw [exec_updateChildNode_missing hS channelId txid hroot (.inl hlink)]
  | some hash =>
      rcases htexts objectId hash hlink with ⟨old, hold⟩
      cases hupdated : updateValues S old object with
      | none =>
          apply independent_of_exec
          intro x _
          rw [exec_updateChildNode_missing hS channelId txid hroot
            (.inr ⟨hash, old, hlink, hold, hupdated⟩)]
      | some text =>
          have hlinkOf : linkOf S dht tree tid objectId = some hash := by
            rw [linkOf_eq hS (.inr ⟨data, hroot⟩), hlink]
          have hdata : (S.objectData hash).getD "" = old := by
            rw [hS.objectData hold, Option.getD_some]
          rcases hidle hash hlinkOf text (by rw [hdata, hupdated]) with ⟨hsame, htransaction⟩
          rw [hdata] at hsame
          -- the text is as it was, so all that is put stands there already
          subst hsame
          apply independent_of_exec
          intro x _
          exact exec_updateChildNode_same hS x hroot hlink hold hupdated htransaction

theorem updateChildNode_independent_iff (h : Rooted contents (dht (tree.root tid)) links)
    (htexts : ∀ objectId hash, links objectId = some hash → IsText contents hash) :
    Independent guid (fun x => updateChildNode S x "1" tree.name channelId txid tid objectId object)
        dht ↔ Idle S dht tree txid tid objectId object := by
  constructor
  · exact idle_of_independent hS h htexts
  · exact independent_of_idle hS h htexts

end Trees

/-! ## Documents -/

section Documents

variable {x x' : CommandEnv} {source channelId txid tid entityId documentId documentJson : String}
  {op : DocumentOp} {σ : String → String}

/-- Without an entity the command only answers. -/
theorem exec_createOrDeleteDocument_empty (h : σ (dataRootKey tid entityId) = "") :
    ((createOrDeleteDocument S x source channelId txid tid entityId documentId documentJson
      op).exec σ).1 = σ := by
  rcases exec_send x source channelId .exception txid documentId msgTemplateNotFound with
    ⟨answered, hanswer⟩
  simp [createOrDeleteDocument, Prog.exec_bind, h, hanswer]

/-- A change of a document that is there does not answer. -/
theorem exec_createOrDeleteDocument_silent (x' : CommandEnv) (hop : op ≠ .create)
    (h : σ (dataRootKey tid entityId) ≠ "") :
    (createOrDeleteDocument S x source channelId txid tid entityId documentId documentJson
        op).exec σ =
      (createOrDeleteDocument S x' source channelId txid tid entityId documentId documentJson
        op).exec σ := by
  simp [createOrDeleteDocument, Prog.exec_bind, h, hop]

/-- Id and new text of a document that was found, unless one of them raises. -/
theorem exec_eachDocument_cons (doc : Json) (docs : List Json) :
    (∀ x σ, (eachDocument S x source channelId txid tid entityId documentJson op
        (doc :: docs)).exec σ = (σ, none)) ∨
      ∃ docId text, ∀ x, eachDocument S x source channelId txid tid entityId documentJson op
          (doc :: docs) =
        (createOrDeleteDocument S x source channelId txid tid entityId docId text op >>= fun _ =>
          eachDocument S x source channelId txid tid entityId documentJson op docs) := by
  cases hid : doc.stringAt "id" with
  | none =>
      left
      intro x σ
      simp [eachDocument, hid, orRaise]
  | some docId =>
      cases htext : changedText S documentJson op doc with
      | none =>
          left
          intro x σ
          simp [eachDocument, hid, htext, orRaise]
      | some text =>
          right
          refine ⟨docId, text, ?_⟩
          intro x
          simp [eachDocument, hid, htext, orRaise]

/-- Without a root the loop changes nothing. -/
theorem exec_eachDocument_empty (h : σ (dataRootKey tid entityId) = "") (docs : List Json) :
    ((eachDocument S x source channelId txid tid entityId documentJson op docs).exec σ).1 = σ := by
  induction docs with
  | nil => rfl
  | cons doc docs ih =>
      rcases exec_eachDocument_cons doc docs with hraise | ⟨docId, text, heach⟩
      · rw [hraise]
      · rw [heach, Prog.exec_bind]
        have hfirst : ((createOrDeleteDocument S x source channelId txid tid entityId docId text
            op).exec σ).1 = σ := exec_createOrDeleteDocument_empty h
        rcases hexec : (createOrDeleteDocument S x source channelId txid tid entityId docId text
          op).exec σ with ⟨σ', _ | _⟩
        · rw [hexec] at hfirst
          exact hfirst
        · rw [hexec] at hfirst
          subst hfirst
          exact ih

/-- The loop over the documents comes to the same store whatever becomes of its answers: it
answers only when the root of the entity is gone, and changes nothing from there on. -/
theorem exec_eachDocument_fst (hop : op ≠ .create) (docs : List Json) (σ : String → String) :
    ((eachDocument S x source channelId txid tid entityId documentJson op docs).exec σ).1 =
      ((eachDocument S x' source channelId txid tid entityId documentJson op docs).exec σ).1 := by
  induction docs generalizing σ with
  | nil => rfl
  | cons doc docs ih =>
      by_cases hempty : σ (dataRootKey tid entityId) = ""
      · rw [exec_eachDocument_empty hempty, exec_eachDocument_empty hempty]
      rcases exec_eachDocument_cons doc docs with hraise | ⟨docId, text, heach⟩
      · rw [hraise, hraise]
      · rw [heach, heach, Prog.exec_bind, Prog.exec_bind,
          exec_createOrDeleteDocument_silent x' hop hempty]
        rcases (createOrDeleteDocument S x' source channelId txid tid entityId docId text
          op).exec σ with ⟨σ', _ | _⟩
        · rfl
        · exact ih σ'

/-- Updates and deletes of documents answer when all is done. -/
theorem updateOrDeleteDocument_independent (hop : op ≠ .create) (expression : String) :
    Independent guid (fun x => updateOrDeleteDocument S x "1" channelId txid tid entityId expression
      documentJson op) dht := by
  by_cases hempty : dht (dataRootKey tid entityId) = ""
  · apply independent_of_exec dht
    intro x _
    rcases exec_send x "1" channelId .exception txid "" msgDocumentRootNotFound with
      ⟨answered, hanswer⟩
    simp [updateOrDeleteDocument, Prog.exec_bind, hempty, hanswer]
  have hsearch : (searchDocument S tid entityId expression).exec dht =
      (dht, S.evaluate (dht (dataRootKey tid entityId)) expression) := by
    simp [searchDocument, Prog.exec_bind, hempty]
  cases hdocs : S.evaluate (dht (dataRootKey tid entityId)) expression with
  | none =>
      apply independent_of_exec dht
      intro x _
      simp [updateOrDeleteDocument, Prog.exec_bind, hempty, hsearch, hdocs]
  | some docs =>
      by_cases hnone : docs.isEmpty = true
      · apply independent_of_exec dht
        intro x _
        rcases exec_send x "1" channelId .exception txid "" msgDocumentNotFound with
          ⟨answered, hanswer⟩
        simp [updateOrDeleteDocument, Prog.exec_bind, hempty, hsearch, hdocs, hnone, hanswer]
      cases docs with
      | arr docs =>
          -- the last answer comes when the loop is through
          have hloop : ∀ x, ((updateOrDeleteDocument S x "1" channelId txid tid entityId expression
              documentJson op).exec dht).1 =
                ((eachDocument S x "1" channelId txid tid entityId documentJson op docs).exec
                  dht).1 := by
            intro x
            rcases exec_send x "1" channelId .stateChange txid ""
              (if op = .update then msgDocumentUpdate else msgDocumentDelete) with
              ⟨answered, hanswer⟩
            simp only [updateOrDeleteDocument, Prog.exec_bind, exec_dhtGet, hempty, if_false,
              hsearch, hdocs, hnone, Bool.false_eq_true]
            rcases (eachDocument S x "1" channelId txid tid entityId documentJson op docs).exec
              dht with ⟨σ', _ | _⟩
            · rfl
            · simp only [hanswer]
          intro delivery delivery'
          show ((updateOrDeleteDocument S _ _ _ _ _ _ _ _ _).exec dht).1 =
            ((updateOrDeleteDocument S _ _ _ _ _ _ _ _ _).exec dht).1
          rw [hloop, hloop]
          exact exec_eachDocument_fst hop docs dht
      -- an answer that is no array raises before anything is written
      | null | bool b | num q | str s | obj members =>
          apply independent_of_exec dht
          intro x _
          simp [updateOrDeleteDocument, Prog.exec_bind, hempty, hsearch, hdocs, hnone]

/-- What a text that got no id leaves of the store: it is no object, so that no index changes. -/
theorem exec_createOrDeleteDocument_nameless (hS : S.Lawful contents) (hsend : Delivered x source)
    (channelId txid documentId : String) {documents : String → Option String}
    (hindex : Index contents (σ (dataRootKey tid entityId)) documents)
    (hname : ((S.parse documentJson).bind fun j => j.setMember "id" (.str x.guid)) = none) :
    ∃ hash answered, contents hash = some (documentJson, fun _ => none) ∧
      (createOrDeleteDocument S x source channelId txid tid entityId documentId documentJson
        .create).exec σ =
          (Function.update σ (documentKey tid entityId x.guid) hash, answered) := by
  rcases exec_addObject_text hS documentJson with ⟨hash, hhash, hput⟩
  cases hparse : S.parse documentJson with
  | none =>
      refine ⟨hash, none, hhash, ?_⟩
      simp [createOrDeleteDocument, nameDocument, Prog.exec_bind, hindex.ne_empty hS,
        hparse, hput, hsend _ _ _ _ _ _]
  | some j =>
      refine ⟨hash, some (), hhash, ?_⟩
      rw [hparse, Option.bind_some] at hname
      -- a value that is no object has no member `id`
      have hget : j.get? "id" = none := by
        cases j with
        | obj members | null => simp [Json.setMember] at hname
        | bool b | num q | str s | arr elems => rfl
      rcases hindex with ⟨bNode, cNode, rootData, bData, cData, hroot, -, -⟩
      simp [createOrDeleteDocument, nameDocument, Prog.exec_bind, hS.ne_empty hroot, hparse, hname,
        hput, hsend _ _ _ _ _ _, hS.edgesOf_single hroot, hS.iteration_singleton, updateIndexes,
        hget]

/-- A new document is put under its key before the answer, and into the index after it. -/
theorem createDocument_not_independent (hS : S.Lawful contents)
    {documents : String → Option String}
    (hindex : Index contents (dht (dataRootKey tid entityId)) documents)
    (hfresh : documents guid = none) {j : Json}
    (hname : ((S.parse documentJson).bind fun j => j.setMember "id" (.str guid)) = some j) :
    ¬Independent guid (fun x => createOrDeleteDocument S x "1" channelId txid tid entityId ""
      documentJson .create) dht := by
  intro hindependent
  have hget : j.get? "id" = some (.str guid) := by
    rcases Option.bind_eq_some_iff.mp hname with ⟨body, -, hset⟩
    cases body with
    | obj members =>
        cases hset
        exact Json.lookup_insertMember ..
    | null =>
        cases hset
        rfl
    | bool b | num q | str s | arr elems => cases hset
  have hnamed : ∀ x : CommandEnv, x.guid = guid →
      nameDocument S x "1" channelId txid documentJson = .ret (S.dump j) := by
    intro x hguid
    unfold nameDocument
    rw [hguid, hname]
  rcases exec_createOrDeleteDocument hS (delivered_sentEnv guid "1") hindex (if_pos rfl)
    (by rw [if_pos rfl, hnamed (sentEnv guid) rfl]; rfl) (hS.parse_dump (hS.wellFormed_named hname))
    hget (.inl rfl) with ⟨hash, root', hhash, hindex', hexec⟩
  have hput : S.objectPut (S.dump j) [] = some hash := hS.objectPut_eq_some.mpr hhash
  have hraised : (createOrDeleteDocument S (raisedEnv guid) "1" channelId txid tid entityId ""
      documentJson .create).exec dht =
        (Function.update dht (documentKey tid entityId guid) hash, none) := by
    have hanswer := exec_send_raised (raisedEnv guid) (fun _ => rfl) channelId
    simp [createOrDeleteDocument, Prog.exec_bind, hindex.ne_empty hS, hnamed (raisedEnv guid) rfl,
      hput, hanswer]
  -- the root has not moved, so the document was in the index before
  have heq := hindependent.eq hexec hraised (dataRootKey tid entityId)
  have hkey : dataRootKey tid entityId ≠ documentKey tid entityId guid :=
    (documentKey_ne_rootKey tid entityId guid _).symm
  rw [Function.update_self, Function.update_of_ne hkey] at heq
  subst heq
  rw [hindex.unique hindex'] at hfresh
  simp [DocumentOp.apply] at hfresh

/-- A text without an id is put under the key of the document unless the first answer raises. -/
theorem nameless_not_independent (hS : S.Lawful contents) {documents : String → Option String}
    (hindex : Index contents (dht (dataRootKey tid entityId)) documents)
    (hdocument : dht (documentKey tid entityId guid) = "")
    (hname : ((S.parse documentJson).bind fun j => j.setMember "id" (.str guid)) = none) :
    ¬Independent guid (fun x => createOrDeleteDocument S x "1" channelId txid tid entityId ""
      documentJson .create) dht := by
  intro hindependent
  rcases exec_createOrDeleteDocument_nameless hS (delivered_sentEnv guid "1") channelId txid ""
    hindex hname with ⟨hash, answered, hhash, hexec⟩
  have hraised : (createOrDeleteDocument S (raisedEnv guid) "1" channelId txid tid entityId ""
      documentJson .create).exec dht = (dht, none) := by
    have hanswer := exec_send_raised (raisedEnv guid) (fun _ => rfl) channelId
    simp [createOrDeleteDocument, nameDocument, Prog.exec_bind, hindex.ne_empty hS, hname, hanswer]
  have heq := hindependent.eq hexec hraised (documentKey tid entityId guid)
  rw [sentEnv_guid, Function.update_self, hdocument] at heq
  exact hS.ne_empty hhash heq

/-- A new document is independent of its answer if and only if its entity has no root. -/
theorem createDocument_independent_iff (hS : S.Lawful contents)
    (h : IsEntity contents (dht (dataRootKey tid entityId)))
    (hdocument : dht (documentKey tid entityId guid) = "")
    (hindexed : ∀ documents, Index contents (dht (dataRootKey tid entityId)) documents →
      documents guid = none) :
    Independent guid (fun x => createOrDeleteDocument S x "1" channelId txid tid entityId ""
      documentJson .create) dht ↔ dht (dataRootKey tid entityId) = "" := by
  constructor
  · intro hindependent
    by_contra hne
    rcases h.resolve_left hne with ⟨documents, hindex⟩
    cases hname : (S.parse documentJson).bind fun j => j.setMember "id" (.str guid) with
    | some j =>
        exact createDocument_not_independent hS hindex (hindexed documents hindex) hname
          hindependent
    | none => exact nameless_not_independent hS hindex hdocument hname hindependent
  · intro hempty
    apply independent_of_exec
    intro x _
    exact exec_createOrDeleteDocument_empty hempty

end Documents

/-! ## All commands -/

section Commands

variable (hS : S.Lawful contents) {words : List String} {channelId txid tid : String}

theorem stateAfter_eq_iff : (∀ delivery delivery',
    stateAfter S dht words channelId txid tid guid delivery =
      stateAfter S dht words channelId txid tid guid delivery') ↔
    Independent guid (fun x => executeStateChangeCommand S x words "1" channelId txid tid) dht := by
  simp only [stateAfter, Prog.run_fst]
  exact Iff.rfl

theorem stateAfter_add (tree : ObjectTree) (text : String) (delivery : Response → Delivery) :
    stateAfter S dht [tree.addWord, text] channelId txid tid guid delivery =
      ((addChildNode S { guid, delivery } "1" channelId txid tid tree.name
        (S.base64_decode text)).exec dht).1 := by
  rw [stateAfter, Prog.run_fst, ObjectTree.execute_add]

include hS

/-- A command is independent of its answers if and only if it is settled. -/
theorem executeStateChangeCommand_independent_iff (hdht : Grounded contents dht)
    (hfresh : Fresh S contents dht tid guid) :
    Independent guid (fun x => executeStateChangeCommand S x words "1" channelId txid tid) dht ↔
      Settled S dht words txid tid := by
  have hadd : ∀ (tree : ObjectTree) (object : String), ¬Independent guid (fun x =>
      addChildNode S x "1" channelId txid tid tree.name object) dht := by
    intro tree object
    rcases (hdht (tree.root tid)).tree tree tid rfl with ⟨links, hrooted, -⟩
    have hlink := hfresh.object tree
    rw [linkOf_eq hS hrooted] at hlink
    exact addChildNode_not_independent hS hrooted hlink
  have hupdate : ∀ (tree : ObjectTree) (objectId object : String), Independent guid (fun x =>
      updateChildNode S x "1" tree.name channelId txid tid objectId object) dht ↔
        Idle S dht tree txid tid objectId object := by
    intro tree objectId object
    rcases (hdht (tree.root tid)).tree tree tid rfl with ⟨links, hrooted, htexts⟩
    exact updateChildNode_independent_iff hS hrooted htexts
  have hdelete : ∀ (tree : ObjectTree) (objectId : String), Independent guid (fun x =>
      deleteObject S x "1" tree.name channelId txid tid objectId) dht ↔
        linkOf S dht tree tid objectId = none := by
    intro tree objectId
    rcases (hdht (tree.root tid)).tree tree tid rfl with ⟨links, hrooted, -⟩
    exact deleteObject_independent_iff hS hrooted
  have hcreate : ∀ entityId documentJson : String, Independent guid (fun x =>
      createOrDeleteDocument S x "1" channelId txid tid entityId "" documentJson .create) dht ↔
        dht (dataRootKey tid entityId) = "" := fun entityId documentJson =>
    createDocument_independent_iff hS ((hdht (dataRootKey tid entityId)).entity tid entityId rfl)
      (hfresh.document entityId) (hfresh.indexed entityId)
  -- a word that is no number raises
  cases hnumber : stoi (word words 0) with
  | none =>
      simp only [Settled, executeStateChangeCommand, hnumber, orRaise, Prog.raise_bind,
        Option.bind_none, iff_true]
      exact independent_of_exec _ fun x _ => rfl
  | some number =>
      simp only [Settled, executeStateChangeCommand, hnumber, orRaise, Prog.ret_bind,
        Option.bind_some]
      cases Command.ofCode number with
      | none => exact iff_of_true (independent_of_exec _ fun x _ => rfl) trivial
      | some command =>
          cases command with
          -- one result for each command
          | addFunction => exact iff_of_false (hadd .function _) id
          | addTemplate => exact iff_of_false (hadd .template _) id
          | addDocument => exact hcreate _ _
          | updateFunction => exact hupdate .function _ _
          | updateTemplate => exact hupdate .template _ _
          | deleteFunction => exact hdelete .function _
          | deleteTemplate => exact hdelete .template _
          | updateDocument =>
              exact iff_of_true (updateOrDeleteDocument_independent (by decide) _) trivial
          | deleteDocument =>
              exact iff_of_true (updateOrDeleteDocument_independent (by decide) _) trivial

/-- The store does not depend on the answers exactly when no change of it follows one. -/
theorem replies_independent_iff (hdht : Reachable S dht) (hfresh : Fresh S contents dht tid guid) :
    (∀ delivery delivery', stateAfter S dht words channelId txid tid guid delivery =
      stateAfter S dht words channelId txid tid guid delivery') ↔
        Settled S dht words txid tid := by
  rw [stateAfter_eq_iff]
  exact executeStateChangeCommand_independent_iff hS (hdht.grounded hS) hfresh

end Commands

namespace Sample

def newId : Guid := ⟨"d", isUtf8_d⟩

/-- A new function `{}`. -/
noncomputable def afterAdd (delivery : Delivery) : String → String :=
  stateAfter searchingServices (fun _ => "") ["3", "e30="] "n" "w" "t" newId fun _ => delivery

/-- The store with the function. -/
theorem exists_added : ∃ hash root data,
    ObjectStore.contents root = some (data, Function.update (fun _ => none) "d" (some hash)) ∧
      afterAdd .sent = Function.update (recorded "w" hash
        (Function.update (fun _ => "") (ObjectTree.function.key "t" "d") hash))
          (ObjectTree.function.root "t") root := by
  have hS := searchingServices_lawful
  rcases exec_addObject_text hS (searchingServices.base64_decode "e30=") with ⟨hash, hhash, hadd⟩
  have hrooted : Rooted ObjectStore.contents (Function.update (fun _ => "")
      (ObjectTree.function.key "t" "d") hash (ObjectTree.function.root "t")) fun _ => none := by
    rw [Function.update_of_ne (ObjectTree.key_ne_root .function .function "t" "d").symm]
    exact .inl ⟨rfl, rfl⟩
  have hknown : ObjectStore.contents hash ≠ none := by simp [hhash]
  -- the tree is new
  rcases exec_linkToRoot hS hrooted hknown "d" "w" with ⟨root, data, hroot, hlink⟩
  refine ⟨hash, root, data, hroot, ?_⟩
  have hdelivered := delivered_sentEnv newId "1"
  have hname : ObjectTree.function.name ≠ templateTree := by decide
  refine (stateAfter_add .function "e30=" fun _ => .sent).trans ?_
  have hexec : (addChildNode searchingServices (sentEnv newId) "1" "n" "w" "t"
      ObjectTree.function.name (searchingServices.base64_decode "e30=")).exec (fun _ => "") =
        (Function.update (recorded "w" hash
          (Function.update (fun _ => "") (ObjectTree.function.key "t" "d") hash))
            (ObjectTree.function.root "t") root, some ()) := by
    simp only [addChildNode, Prog.exec_bind, hadd, exec_dhtPut, hdelivered _ _ _ _ _ _,
      if_neg hname]
    simp [newId, hlink]
  exact congrArg Prod.fst hexec

theorem reachable_added : Reachable searchingServices (afterAdd .sent) :=
  .command (.start fun _ _ => rfl) ..

/-- The function is all that the trees link. -/
theorem linkOf_added (tree : ObjectTree) (objectId : String) :
    linkOf searchingServices (afterAdd .sent) tree "t" objectId ≠ none ↔
      tree = .function ∧ objectId = "d" := by
  rcases exists_added with ⟨hash, root, data, hroot, hadded⟩
  rw [hadded]
  cases tree with
  | function =>
      have hrooted : Rooted ObjectStore.contents (Function.update (recorded "w" hash
          (Function.update (fun _ => "") (ObjectTree.function.key "t" "d") hash))
            (ObjectTree.function.root "t") root (ObjectTree.function.root "t")) _ :=
        .inr ⟨data, by rw [Function.update_self, hroot]⟩
      rw [linkOf_eq searchingServices_lawful hrooted]
      by_cases hid : objectId = "d" <;> simp [hid]
  | template =>
      have hne : ObjectTree.template.root "t" ≠ ObjectTree.function.root "t" := by
        rw [Ne, ObjectTree.root_inj]
        exact nofun
      -- the tree of the templates has no root
      have hempty : linkOf searchingServices (Function.update (recorded "w" hash
          (Function.update (fun _ => "") (ObjectTree.function.key "t" "d") hash))
            (ObjectTree.function.root "t") root) .template "t" objectId = none := by
        apply if_pos
        rw [Function.update_of_ne hne, recorded_of_ne (rootKey_ne_transactionKey _ hash),
          Function.update_of_ne (ObjectTree.key_ne_root .function .template "t" "d").symm]
      simp [hempty]

/-- Nothing but the key and the root of the function, and the transaction, is there. -/
theorem added_of_ne {key : String} (hkey : key ≠ ObjectTree.function.key "t" "d")
    (hroot : key ≠ ObjectTree.function.root "t") (htransaction : ∀ hash, key ≠ transactionKey hash) :
    afterAdd .sent key = "" := by
  rcases exists_added with ⟨hash, root, data, -, hadded⟩
  rw [hadded, Function.update_of_ne hroot, recorded_of_ne (htransaction hash),
    Function.update_of_ne hkey]

def laterId : Guid := ⟨"e", isUtf8_e⟩

theorem fresh_added : Fresh searchingServices ObjectStore.contents (afterAdd .sent) "t" laterId where
  object tree := by
    by_contra hlink
    exact absurd ((linkOf_added ..).mp hlink).2 (by decide)
  document entityId :=
    added_of_ne (objectKey_ne_documentKey (.inl rfl) _ _ _ _ _).symm (documentKey_ne_rootKey _ _ _ _)
      (documentKey_ne_transactionKey _ _ _)
  indexed entityId documents hindex := by
    refine absurd (added_of_ne ?_ ?_ ?_) (hindex.ne_empty searchingServices_lawful)
    · exact (ObjectTree.key_ne_rootKey .function "t" "d" _).symm
    · exact (ObjectTree.root_ne_dataRootKey .function "t" "t" entityId).symm
    · exact rootKey_ne_transactionKey _

end Sample

/-- A delete of a function that is not there is independent of its answer, and one of a function
that is there is not. -/
theorem replies_independent_iff_delete :
    (∀ delivery delivery', stateAfter Sample.searchingServices (Sample.afterAdd .sent) ["9", "f"] "n"
        "v" "t" Sample.laterId delivery =
      stateAfter Sample.searchingServices (Sample.afterAdd .sent) ["9", "f"] "n" "v" "t"
        Sample.laterId delivery') ∧
    ¬∀ delivery delivery', stateAfter Sample.searchingServices (Sample.afterAdd .sent) ["9", "d"] "n"
        "v" "t" Sample.laterId delivery =
      stateAfter Sample.searchingServices (Sample.afterAdd .sent) ["9", "d"] "n" "v" "t"
        Sample.laterId delivery' := by
  have hsettled : ∀ objectId, Settled Sample.searchingServices (Sample.afterAdd .sent)
      ["9", objectId] "v" "t" ↔ objectId ≠ "d" := by
    intro objectId
    have hcode : (stoi "9").bind Command.ofCode = some .deleteFunction := by decide
    have hlink := (Sample.linkOf_added .function objectId).not
    simpa [Settled, word, hcode] using hlink
  constructor
  · exact (replies_independent_iff Sample.searchingServices_lawful Sample.reachable_added
      Sample.fresh_added).mpr ((hsettled "f").mpr (by decide))
  · intro h
    exact (hsettled "d").mp ((replies_independent_iff Sample.searchingServices_lawful
      Sample.reachable_added Sample.fresh_added).mp h) rfl

/-- A new function whose answer raises is under its key, but not below the root. -/
theorem key_without_link :
    Sample.afterAdd .raised (objectKey functionTree "t" "d") ≠ "" ∧
      linkOf Sample.searchingServices (Sample.afterAdd .raised) .function "t" "d" = none ∧
        Sample.afterAdd .raised ≠ Sample.afterAdd .sent := by
  have hS := Sample.searchingServices_lawful
  let dht : String → String := fun _ => ""
  have hrooted : Rooted ObjectStore.contents (dht (ObjectTree.function.root "t"))
      (fun _ => none) := .inl ⟨rfl, rfl⟩
  rcases exec_addChildNode hS (delivered_sentEnv Sample.newId "1") "n" "w" hrooted
    (Sample.searchingServices.base64_decode "e30=") with
    ⟨hash, root, data, dht', hhash, hroot, hmoves, hexec⟩
  -- the two histories part at the answer, between the key and the link
  have hsent : Sample.afterAdd .sent = dht' :=
    (stateAfter_add .function "e30=" fun _ => .sent).trans (congrArg Prod.fst hexec)
  have hraised : Sample.afterAdd .raised =
      Function.update dht (ObjectTree.function.key "t" "d") hash :=
    (stateAfter_add .function "e30=" fun _ => .raised).trans
      (congrArg Prod.fst (exec_addChildNode_raised hS hhash))
  have hempty : Sample.afterAdd .raised (ObjectTree.function.root "t") = "" := by
    rw [hraised, Function.update_of_ne (ObjectTree.key_ne_root .function .function "t" "d").symm]
  refine ⟨?_, if_pos hempty, ?_⟩
  · have hkey : Sample.afterAdd .raised (ObjectTree.function.key "t" "d") = hash := by
      rw [hraised, Function.update_self]
    rw [← hkey] at hhash
    exact hS.ne_empty hhash
  · intro heq
    rw [heq, hsent, hmoves.root] at hempty
    exact hS.ne_empty hroot hempty

end DecentralizedCloud.Storage
