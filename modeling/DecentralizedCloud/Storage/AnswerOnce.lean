import DecentralizedCloud.Storage.Answers
import DecentralizedCloud.Storage.DocumentIdentity
import DecentralizedCloud.Storage.Reachable

/-!
# One answer to every command

A requester waits for the answer to its command. A command answers from several
places, and an exception on the way, which is swallowed further up, leaves it without
one. It answers once, and with an exception exactly when it has changed nothing for
want of a target or of an acceptable body, under the condition `Answerable`
(`answeredOnce_iff`).
-/

namespace DecentralizedCloud.Storage

open Schedule

/-! ## Right answers -/

section Answers

variable (S : Services) (dht : String → String)

/-- The hash that the collection of an entity links under an id. -/
def documentOf (tid entityId documentId : String) : Option String :=
  if dht (dataRootKey tid entityId) = "" then none
  else do
    let bNode ← (edgesOf S (dht (dataRootKey tid entityId))).at? "id"
    let cNode ← (edgesOf S bNode).at? "__"
    (edgesOf S cNode).at? documentId

/-- The stored functions, templates and documents are the same: the first two under their keys
and in their trees, the documents in the collections of their entities. -/
structure Unchanged (dht' : String → String) : Prop where
  keys : ∀ (tree : ObjectTree) tid objectId, dht' (tree.key tid objectId) =
    dht (tree.key tid objectId)
  links : ∀ tree tid objectId, linkOf S dht' tree tid objectId = linkOf S dht tree tid objectId
  documents : ∀ tid entityId documentId,
    documentOf S dht' tid entityId documentId = documentOf S dht tid entityId documentId

/-- The body of a new document: it gets an id. -/
def Nameable (text : String) : Prop :=
  match S.parse text with
  | some (.obj _) | some .null => True
  | some (.bool _) | some (.num _) | some (.str _) | some (.arr _) | none => False

/-- The body of an update: its members can be walked through. -/
def Acceptable (text : String) : Prop :=
  match S.parse text with
  | some (.obj _) | some .null | some (.arr []) => True
  | some (.bool _) | some (.num _) | some (.str _) | some (.arr (_ :: _)) | none => False

/-- The documents that a filter finds in an entity. -/
def foundDocuments (tid entityId expression : String) : List Json :=
  if dht (dataRootKey tid entityId) = "" then []
  else match S.evaluate (dht (dataRootKey tid entityId)) expression with
    | some (.arr docs) => docs
    | some .null | some (.bool _) | some (.num _) | some (.str _) | some (.obj _) | none => []

/-- The target of the command does not exist, or its body is not acceptable. -/
def Unserviceable (words : List String) (tid : String) : Prop :=
  match (stoi (word words 0)).bind Command.ofCode with
  | some .addFunction | some .addTemplate | none => False
  | some .addDocument => dht (dataRootKey tid (word words 1)) = "" ∨
      ¬Nameable S (S.base64_decode (word words 2))
  | some .updateFunction => linkOf S dht .function tid (word words 1) = none ∨
      ¬Acceptable S (S.base64_decode (word words 2))
  | some .updateTemplate => linkOf S dht .template tid (word words 1) = none ∨
      ¬Acceptable S (S.base64_decode (word words 2))
  | some .updateDocument => foundDocuments S dht tid (word words 1) (word words 2) = [] ∨
      ¬Acceptable S (S.base64_decode (word words 3))
  | some .deleteFunction => linkOf S dht .function tid (word words 1) = none
  | some .deleteTemplate => linkOf S dht .template tid (word words 1) = none
  | some .deleteDocument => foundDocuments S dht tid (word words 1) (word words 2) = []

/-- The program answers once, and with an exception exactly when it has left all as it was
because it could not be served. -/
def AnsweredBy (unserviceable : Prop) (p : Cmd Unit) : Prop :=
  ∃ response, (p.run dht).2 = [response] ∧
    (response.isException = true ↔ unserviceable ∧ Unchanged S dht (p.run dht).1)

def AnsweredOnce (words : List String) (guid : Guid) (status : Delivery)
    (source channelId txid tid : String) : Prop :=
  AnsweredBy S dht (Unserviceable S dht words tid)
    (executeStateChangeCommand S (answerEnv guid status) words source channelId txid tid)

/-! ## The condition -/

/-- There are no objects at all, or the body can be merged into the one that is linked. -/
def Mergeable (tree : ObjectTree) (tid objectId text : String) : Prop :=
  dht (tree.root tid) = "" ∨ ∃ hash, linkOf S dht tree tid objectId = some hash ∧
    (updateValues S ((S.objectData hash).getD "") text).isSome = true

/-- There is an object to delete, in its tree or under its key. -/
def Deletable (tree : ObjectTree) (tid objectId : String) : Prop :=
  linkOf S dht tree tid objectId ≠ none ∨ dht (tree.key tid objectId) ≠ ""

/-- The document can be printed and has a link, and an update leaves it with a text as id. -/
def HasLink (documents : String → Option String) (op : DocumentOp) (payload : String)
    (doc : Json) : Prop :=
  doc.prints = true ∧
  ∃ documentId, doc.stringAt "id" = some documentId ∧ documents documentId ≠ none ∧
    (op = .update → ∃ text j, updateValues S (S.dump doc) payload = some text ∧
      S.parse text = some j ∧ (j.stringAt "id").isSome = true)

/-- All documents can be changed one after another; none is deleted twice. -/
def Changeable (documents : String → Option String) (op : DocumentOp) (payload : String)
    (docs : List Json) : Prop :=
  (∀ doc ∈ docs, HasLink S documents op payload doc) ∧
    (op = .delete → (docs.map (·.stringAt "id")).Nodup)

/-- The search comes to nothing, or to documents that can all be changed. -/
def Searchable (tid entityId expression : String) (op : DocumentOp) (payload : String) : Prop :=
  dht (dataRootKey tid entityId) = "" ∨
    ∃ found, S.evaluate (dht (dataRootKey tid entityId)) expression = some found ∧
      (found.isEmpty = true ∨ ∃ docs, found = .arr docs ∧
        Changeable S (documentOf S dht tid entityId) op payload docs)

def Answerable (words : List String) (tid : String) : Prop :=
  match (stoi (word words 0)).bind Command.ofCode with
  | some .addFunction | some .addTemplate => True
  | some .addDocument => dht (dataRootKey tid (word words 1)) = "" ∨
      Nameable S (S.base64_decode (word words 2))
  | some .updateFunction =>
      Mergeable S dht .function tid (word words 1) (S.base64_decode (word words 2))
  | some .updateTemplate =>
      Mergeable S dht .template tid (word words 1) (S.base64_decode (word words 2))
  | some .updateDocument => Searchable S dht tid (word words 1) (word words 2) .update
      (S.base64_decode (word words 3))
  | some .deleteFunction => Deletable S dht .function tid (word words 1)
  | some .deleteTemplate => Deletable S dht .template tid (word words 1)
  | some .deleteDocument => Searchable S dht tid (word words 1) (word words 2) .delete ""
  | none => False

end Answers

/-! ## Programs that answer -/

section Answering

variable {S : Services} {dht : String → String} {unserviceable : Prop} {p : Cmd Unit}
  {source channelId txid objectId val : String}

theorem Unchanged.refl : Unchanged S dht dht :=
  ⟨fun _ _ _ => rfl, fun _ _ _ => rfl, fun _ _ _ => rfl⟩

theorem answeredBy_iff_of_outputs {response : Response} (h : p.outputs dht = [response]) :
    AnsweredBy S dht unserviceable p ↔
      (response.isException = true ↔ unserviceable ∧ Unchanged S dht (p.exec dht).1) := by
  have hrun : (p.run dht).2 = [response] := h
  rw [AnsweredBy, hrun, Prog.run_fst]
  constructor
  · rintro ⟨_, ⟨⟩, hanswer⟩
    exact hanswer
  · intro hanswer
    exact ⟨response, rfl, hanswer⟩

theorem not_answeredBy_of_outputs {responses : List Response} (h : p.outputs dht = responses)
    (hlength : responses.length ≠ 1) : ¬AnsweredBy S dht unserviceable p := by
  rintro ⟨response, hone, -⟩
  have hrun : (p.run dht).2 = responses := h
  rw [hone] at hrun
  rw [← hrun] at hlength
  exact hlength rfl

/-- An exception is right when the command cannot be served and nothing has been done. -/
theorem answeredBy_exception
    (h : p.outputs dht = [reply source channelId .exception txid objectId val])
    (hexec : (p.exec dht).1 = dht) (hunserviceable : unserviceable) :
    AnsweredBy S dht unserviceable p := by
  rw [answeredBy_iff_of_outputs h, hexec]
  exact iff_of_true ((isException_reply ..).mpr rfl) ⟨hunserviceable, .refl⟩

/-- Any other answer is right otherwise. -/
theorem answeredBy_stateChange_iff
    (h : p.outputs dht = [reply source channelId .stateChange txid objectId val]) :
    AnsweredBy S dht unserviceable p ↔ ¬(unserviceable ∧ Unchanged S dht (p.exec dht).1) := by
  rw [answeredBy_iff_of_outputs h, isException_reply]
  simp

end Answering

/-! ## Functions and templates -/

section Trees

variable {S : Services} {dht : String → String} {tree : ObjectTree} {tid objectId object : String}

theorem acceptable_of_updateValues {old text : String}
    (h : updateValues S old object = some text) : Acceptable S object := by
  unfold Acceptable
  cases hparse : S.parse object with
  | none => simp [updateValues, hparse] at h
  | some j =>
      cases j with
      | obj members | null => trivial
      | bool b | num q | str s => simp [updateValues, hparse] at h
      | arr xs =>
          cases xs with
          | nil => trivial
          | cons x xs => simp [updateValues, hparse] at h

/-- Clearing the key of an object leaves all as it was only if it has been clear. -/
theorem unchanged_clear_iff :
    Unchanged S dht (Function.update dht (tree.key tid objectId) "") ↔
      dht (tree.key tid objectId) = "" := by
  constructor
  · intro h
    rw [← h.keys tree tid objectId, Function.update_self]
  · intro h
    rw [Function.update_eq_self_iff.mpr h.symm]
    exact .refl

variable {guid : Guid} {source : String} {status : Delivery} (hreached : source = "1" → status = .sent)
  (channelId txid : String)

include hreached

/-- An addition always answers, once. -/
theorem answeredBy_addChildNode (object : String) :
    AnsweredBy S dht False (addChildNode S (answerEnv guid status) source channelId txid tid
      tree.name object) := by
  have houtputs : (addChildNode S (answerEnv guid status) source channelId txid tid tree.name
      object).outputs dht =
        [reply source channelId .stateChange txid guid ((S.objectPut object []).getD "")] := by
    rw [addChildNode, outputs_bind_of_exec (outputs_addObject _) (exec_addObject _ _)]
    dsimp only
    rw [outputs_bind_of_exec (outputs_dhtPut _ _) (exec_dhtPut ..)]
    apply outputs_send_bind hreached
    apply Confined.bind (silent_linkToRoot ..)
    intro _
    split
    · exact silent_addDataRoot ..
    · exact confined_pure ()
  rw [answeredBy_stateChange_iff houtputs]
  exact fun h => h.1

variable {contents : String → Option Contents} (hS : S.Lawful contents)
  {links : String → Option String}

include hS

/-- Where there is a root, an update without a link or without a merged text raises before
it answers. -/
theorem answeredBy_updateChildNode (h : IsTree contents (dht (tree.root tid))) :
    AnsweredBy S dht (linkOf S dht tree tid objectId = none ∨ ¬Acceptable S object)
        (updateChildNode S (answerEnv guid status) source tree.name channelId txid tid objectId
          object) ↔
      Mergeable S dht tree tid objectId object := by
  rcases h with ⟨links, hrooted, htexts⟩
  have hlinkOf := linkOf_eq hS hrooted objectId
  rcases hrooted with ⟨hroot, -⟩ | ⟨data, hcontents⟩
  · have houtputs : (updateChildNode S (answerEnv guid status) source tree.name channelId txid tid
        objectId object).outputs dht =
          [reply source channelId .exception txid objectId msgInvalidObjectId] := by
      rw [updateChildNode, outputs_bind_of_exec (outputs_dhtGet _) (exec_dhtGet ..), if_pos hroot,
        outputs_send hreached]
    have hexec : (updateChildNode S (answerEnv guid status) source tree.name channelId txid tid
        objectId object).exec dht = (dht, some ()) :=
      exec_updateChildNode_empty (delivered_reached hreached) channelId txid hroot object
    refine iff_of_true (answeredBy_exception houtputs ?_ (.inl (if_pos hroot))) (.inl hroot)
    rw [hexec]
  · have hne := hS.ne_empty hcontents
    have hedge : (edgesOf S (dht (tree.root tid))).at? objectId = links objectId :=
      hS.at?_edgesOf hcontents objectId
    rw [Mergeable, or_iff_right hne, hlinkOf]
    cases hlink : links objectId with
    -- `at` raises without an edge of the name, and nothing has been sent by then
    | none =>
        have houtputs : (updateChildNode S (answerEnv guid status) source tree.name channelId txid
            tid objectId object).outputs dht = [] := by
          simp [updateChildNode, Prog.outputs_bind, hne, hedge, hlink]
        exact iff_of_false (not_answeredBy_of_outputs houtputs (by decide)) (by simp)
    | some hash =>
        rcases htexts objectId hash hlink with ⟨old, hold⟩
        have hdata : S.objectData hash = some old := hS.objectData hold
        cases hupdated : updateValues S old object with
        -- texts that do not merge raise as well
        | none =>
            have houtputs : (updateChildNode S (answerEnv guid status) source tree.name channelId
                txid tid objectId object).outputs dht = [] := by
              simp [updateChildNode, Prog.outputs_bind, hne, hedge, hlink, hS.ne_empty hold, hdata,
                hupdated]
            refine iff_of_false (not_answeredBy_of_outputs houtputs (by decide)) ?_
            simp [hdata, hupdated]
        | some text =>
            have houtputs : (updateChildNode S (answerEnv guid status) source tree.name channelId
                txid tid objectId object).outputs dht =
                  [reply source channelId .stateChange txid objectId
                    ((S.objectPut text []).getD "")] := by
              simp [updateChildNode, Prog.outputs_bind, hne, hedge, hlink, hS.ne_empty hold, hdata,
                hupdated, outputs_send hreached, exec_send_reached hreached,
                (silent_linkToRoot ..).outputs]
            rw [answeredBy_stateChange_iff houtputs]
            have hacceptable := acceptable_of_updateValues hupdated
            refine iff_of_true ?_ ⟨hash, rfl, by simp [hdata, hupdated]⟩
            rintro ⟨hunlinked | hrefused, -⟩
            · cases hunlinked
            · exact hrefused hacceptable

/-- A delete always reports success: it lies when it has found nothing to delete. -/
theorem answeredBy_deleteObject (h : Rooted contents (dht (tree.root tid)) links) :
    AnsweredBy S dht (linkOf S dht tree tid objectId = none)
        (deleteObject S (answerEnv guid status) source tree.name channelId txid tid objectId) ↔
      Deletable S dht tree tid objectId := by
  have houtputs : (deleteObject S (answerEnv guid status) source tree.name channelId txid tid
      objectId).outputs dht =
        [reply source channelId .stateChange txid objectId "deleted successfully"] := by
    rw [deleteObject, outputs_bind_of_exec (outputs_dhtPut _ _) (exec_dhtPut ..)]
    apply outputs_send_bind hreached
    apply Confined.bind (confined_dhtGet trivial)
    intro rootHash
    apply Confined.bind (silent_unLinkToRoot ..)
    intro _
    split
    · exact confined_dhtPut trivial _
    · exact confined_pure ()
  rw [answeredBy_stateChange_iff houtputs, Deletable, linkOf_eq hS h]
  -- without a link, the key is all that a delete changes
  by_cases hlink : links objectId = none
  · rw [exec_deleteObject_missing hS channelId txid h hlink, unchanged_clear_iff]
    simp [hlink]
  · simp [hlink]

end Trees

/-! ## Single documents -/

section Document

variable {S : Services} {dht : String → String} {x : CommandEnv}
  {source channelId txid tid entityId documentId documentJson : String} {op : DocumentOp}

theorem nameDocument_of_nameable (h : Nameable S documentJson) :
    ∃ named, nameDocument S x source channelId txid documentJson = .ret named := by
  unfold Nameable at h
  cases hparse : S.parse documentJson with
  | none =>
      rw [hparse] at h
      exact h.elim
  | some j =>
      cases j with
      | obj members | null =>
          rw [nameDocument, hparse]
          exact ⟨_, rfl⟩
      | bool b | num q | str s | arr xs =>
          rw [hparse] at h
          exact h.elim

theorem nameDocument_of_not_nameable (h : ¬Nameable S documentJson) :
    nameDocument S x source channelId txid documentJson =
      (send x source channelId .exception txid "" msgInvalidDocumentStructure >>= fun _ =>
        pure documentJson) := by
  unfold Nameable at h
  cases hparse : S.parse documentJson with
  | none => simp only [nameDocument, hparse, Option.bind_none]
  | some j =>
      cases j with
      | obj members | null =>
          rw [hparse] at h
          exact absurd trivial h
      | bool b | num q | str s | arr xs =>
          simp only [nameDocument, hparse, Option.bind_some, Json.setMember]

/-- A change of a document that is there puts nothing out. -/
theorem outputs_changeDocument (hop : op ≠ .create) (hroot : dht (dataRootKey tid entityId) ≠ "") :
    (createOrDeleteDocument S x source channelId txid tid entityId documentId documentJson
      op).outputs dht = [] := by
  rw [createOrDeleteDocument, outputs_bind_of_exec (outputs_dhtGet _) (exec_dhtGet ..),
    if_neg hroot]
  apply Silent.outputs
  simp only [if_neg hop]
  apply Confined.bind (confined_ret _)
  intro documentJson
  apply Confined.bind
  · split <;> simp
  intro documentHash
  apply Confined.bind (confined_dhtPut trivial _)
  intro _
  apply Confined.bind (confined_pure ())
  intro _
  refine Confined.bind (by simp) fun a_b => Confined.bind (by simp) fun inputJson => ?_
  exact confined_updateIndexes trivial ..

variable {guid : Guid} {status : Delivery} (hreached : source = "1" → status = .sent)

include hreached

/-- The answer to a new document comes behind that of its name. -/
theorem outputs_createDocument (hroot : dht (dataRootKey tid entityId) ≠ "") {named : String}
    {responses : List Response}
    (houtputs : (nameDocument S (answerEnv guid status) source channelId txid
      documentJson).outputs dht = responses)
    (hexec : (nameDocument S (answerEnv guid status) source channelId txid
      documentJson).exec dht = (dht, some named)) :
    (createOrDeleteDocument S (answerEnv guid status) source channelId txid tid entityId documentId
      documentJson .create).outputs dht = responses ++
        [reply source channelId .stateChange txid guid ((S.objectPut named []).getD "")] := by
  rw [createOrDeleteDocument, outputs_bind_of_exec (outputs_dhtGet _) (exec_dhtGet ..),
    if_neg hroot]
  dsimp only
  rw [if_pos rfl, if_pos rfl, Prog.outputs_bind, houtputs, hexec]
  congr 1
  dsimp only
  rw [if_neg (by decide), outputs_bind_of_exec (outputs_addObject _) (exec_addObject ..),
    outputs_bind_of_exec (outputs_dhtPut _ _) (exec_dhtPut ..), if_pos rfl]
  apply outputs_send_bind hreached
  refine Confined.bind (by simp) fun a_b => Confined.bind (by simp) fun inputJson => ?_
  exact confined_updateIndexes trivial ..

/-- A body without an id to put is reported, and then the document is reported as well. -/
theorem answeredBy_createDocument :
    AnsweredBy S dht (dht (dataRootKey tid entityId) = "" ∨ ¬Nameable S documentJson)
        (createOrDeleteDocument S (answerEnv guid status) source channelId txid tid entityId
          documentId documentJson .create) ↔
      dht (dataRootKey tid entityId) = "" ∨ Nameable S documentJson := by
  by_cases hroot : dht (dataRootKey tid entityId) = ""
  · have houtputs : (createOrDeleteDocument S (answerEnv guid status) source channelId txid tid
        entityId documentId documentJson .create).outputs dht =
          [reply source channelId .exception txid documentId msgTemplateNotFound] := by
      rw [createOrDeleteDocument, outputs_bind_of_exec (outputs_dhtGet _) (exec_dhtGet ..),
        if_pos hroot, outputs_send hreached]
    refine iff_of_true (answeredBy_exception houtputs ?_ (.inl hroot)) (.inl hroot)
    exact exec_createOrDeleteDocument_empty hroot
  · rw [or_iff_right hroot, or_iff_right hroot]
    by_cases hnameable : Nameable S documentJson
    · rcases nameDocument_of_nameable hnameable with ⟨named, hname⟩
      have houtputs : (createOrDeleteDocument S (answerEnv guid status) source channelId txid tid
          entityId documentId documentJson .create).outputs dht = [] ++
            [reply source channelId .stateChange txid guid ((S.objectPut named []).getD "")] :=
        outputs_createDocument hreached hroot (by rw [hname]; rfl) (by rw [hname]; rfl)
      rw [List.nil_append] at houtputs
      rw [answeredBy_stateChange_iff houtputs]
      exact iff_of_true (fun h => h.1 hnameable) hnameable
    -- the exception does not end the command: the text is stored, and reported once more
    · have hname : nameDocument S (answerEnv guid status) source channelId txid documentJson = _ :=
        nameDocument_of_not_nameable hnameable
      have houtputs : (createOrDeleteDocument S (answerEnv guid status) source channelId txid tid
          entityId documentId documentJson .create).outputs dht =
            [reply source channelId .exception txid "" msgInvalidDocumentStructure] ++
              [reply source channelId .stateChange txid guid
                ((S.objectPut documentJson []).getD "")] := by
        apply outputs_createDocument hreached hroot
        · rw [hname]
          apply outputs_send_bind hreached
          exact confined_pure documentJson
        · rw [hname, Prog.exec_bind, exec_send_reached hreached]
          rfl
      exact iff_of_false (not_answeredBy_of_outputs houtputs (by simp)) hnameable

end Document

/-! ## All documents that are found -/

section Documents

variable {S : Services} {contents : String → Option Contents} (hS : S.Lawful contents)
  {dht : String → String} {x : CommandEnv} {documents : String → Option String}
  {source channelId txid tid entityId documentId text payload : String} {op : DocumentOp}
  {doc j : Json}

theorem exec_searchDocument_eq (hroot : dht (dataRootKey tid entityId) ≠ "") (expression : String) :
    (searchDocument S tid entityId expression).exec dht =
      (dht, S.evaluate (dht (dataRootKey tid entityId)) expression) := by
  simp [searchDocument, Prog.exec_bind, hroot]

theorem outputs_searchDocument (expression : String) :
    (searchDocument S tid entityId expression).outputs dht = [] :=
  Silent.outputs (confined_searchDocument trivial expression) dht

theorem eachDocument_cons_eq (docs : List Json) (hid : doc.stringAt "id" = some documentId)
    (htext : changedText S payload op doc = some text) :
    eachDocument S x source channelId txid tid entityId payload op (doc :: docs) =
      (createOrDeleteDocument S x source channelId txid tid entityId documentId text op >>=
        fun _ => eachDocument S x source channelId txid tid entityId payload op docs) := by
  simp [eachDocument, hid, htext, orRaise]

theorem eachDocument_raise (docs : List Json)
    (h : doc.stringAt "id" = none ∨ changedText S payload op doc = none) :
    eachDocument S x source channelId txid tid entityId payload op (doc :: docs) = .raise := by
  cases hid : doc.stringAt "id" with
  | none => simp [eachDocument, hid, orRaise]
  | some documentId =>
      have htext := h.resolve_left (by simp [hid])
      simp [eachDocument, hid, htext, orRaise]

theorem not_hasLink_of_raise (h : doc.stringAt "id" = none ∨ changedText S payload op doc = none) :
    ¬HasLink S documents op payload doc := by
  rintro ⟨hprints, documentId, hid, -, hupdate⟩
  have htext := h.resolve_left (by simp [hid])
  rw [changedText_eq hprints] at htext
  split at htext
  case isTrue hop =>
      rcases hupdate hop with ⟨text, j, htext', -⟩
      rw [htext] at htext'
      cases htext'
  case isFalse => cases htext

/-- The links that an operation does not make are those that it does not take. -/
theorem hasLink_apply_iff (hlink : documents documentId ≠ none) (documentHash : String) :
    HasLink S (op.apply documentId documentHash documents) op payload doc ↔
      HasLink S documents op payload doc ∧
        (op = .delete → doc.stringAt "id" ≠ some documentId) := by
  have happly : ∀ documentId', op.apply documentId documentHash documents documentId' ≠ none ↔
      documents documentId' ≠ none ∧ (op = .delete → documentId' ≠ documentId) := by
    intro documentId'
    rw [DocumentOp.apply, Function.update_apply]
    by_cases hsame : documentId' = documentId
    · subst hsame
      simp [hlink]
    · simp [hsame]
  constructor
  · rintro ⟨hprints, documentId', hid, hlink', hupdate⟩
    rw [happly] at hlink'
    refine ⟨⟨hprints, documentId', hid, hlink'.1, hupdate⟩, ?_⟩
    intro hdelete hid'
    rw [hid, Option.some.injEq] at hid'
    exact hlink'.2 hdelete hid'
  · rintro ⟨⟨hprints, documentId', hid, hlink', hupdate⟩, hother⟩
    refine ⟨hprints, documentId', hid, (happly documentId').mpr ⟨hlink', ?_⟩, hupdate⟩
    intro hdelete hsame
    exact hother hdelete (by rw [hid, hsame])

/-- After the first document the others are changed in the new index. -/
theorem changeable_cons_iff (hid : doc.stringAt "id" = some documentId)
    (h : HasLink S documents op payload doc) (documentHash : String) (docs : List Json) :
    Changeable S documents op payload (doc :: docs) ↔
      Changeable S (op.apply documentId documentHash documents) op payload docs := by
  have hlink : documents documentId ≠ none := by
    rcases h with ⟨-, documentId', hid', hlink, -⟩
    rw [hid, Option.some.injEq] at hid'
    rwa [hid']
  simp only [Changeable, hasLink_apply_iff hlink, List.forall_mem_cons, h, true_and,
    List.map_cons, List.nodup_cons, List.mem_map, hid]
  constructor
  · rintro ⟨hlinks, hdistinct⟩
    refine ⟨fun doc' hdoc' => ⟨hlinks doc' hdoc', ?_⟩, fun hdelete => (hdistinct hdelete).2⟩
    intro hdelete hsame
    exact (hdistinct hdelete).1 ⟨doc', hdoc', hsame⟩
  · rintro ⟨hlinks, hdistinct⟩
    refine ⟨fun doc' hdoc' => (hlinks doc' hdoc').1, fun hdelete => ⟨?_, hdistinct hdelete⟩⟩
    rintro ⟨doc', hdoc', hsame⟩
    exact (hlinks doc' hdoc').2 hdelete hsame

include hS

/-- A document can be changed if and only if it is linked and its new text has a text as id. -/
theorem hasLink_iff (hheld : doc.held = true) (hid : doc.stringAt "id" = some documentId)
    (htext : changedText S payload op doc = some text) (hparse : S.parse text = some j) :
    HasLink S documents op payload doc ↔
      documents documentId ≠ none ∧ (j.stringAt "id").isSome = true := by
  have hprints := prints_of_changedText htext
  rw [changedText_eq hprints] at htext
  constructor
  · rintro ⟨-, documentId', hid', hlink, hupdate⟩
    rw [hid, Option.some.injEq] at hid'
    subst hid'
    refine ⟨hlink, ?_⟩
    -- an update writes the text with the new members, a delete the document as it is
    split at htext
    case isTrue hop =>
        rcases hupdate hop with ⟨text', j', htext', hparse', hsome⟩
        rw [htext, Option.some.injEq] at htext'
        rw [← htext', hparse, Option.some.injEq] at hparse'
        rwa [hparse']
    case isFalse =>
        cases htext
        rw [hS.parse_dump ⟨hheld, hprints⟩, Option.some.injEq] at hparse
        rw [← hparse, hid]
        rfl
  · rintro ⟨hlink, hsome⟩
    refine ⟨hprints, documentId, hid, hlink, ?_⟩
    intro hop
    rw [if_pos hop] at htext
    exact ⟨text, j, htext, hparse, hsome⟩

/-- An update may give the document another id, but does not take it away. -/
theorem exists_id_of_changedText (hheld : doc.held = true)
    (hid : doc.stringAt "id" = some documentId)
    (htext : changedText S payload op doc = some text) :
    ∃ j, S.parse text = some j ∧ j.get? "id" ≠ none := by
  have hmember := stringAt_eq_some.mp hid
  have hwell : doc.WellFormed := ⟨hheld, prints_of_changedText htext⟩
  rw [changedText_eq hwell.prints] at htext
  split at htext
  case isTrue =>
      obtain ⟨members, rfl⟩ : ∃ members, doc = .obj members := by
        cases doc with
        | obj members => exact ⟨members, rfl⟩
        | null | bool b | num q | str s | arr xs => cases hmember
      rcases exists_of_updateValues hS.toJsonLaws hwell htext with ⟨named, rfl, hnamed⟩
      refine ⟨_, hS.parse_dump (wellFormed_merged hS.toJsonLaws hwell hnamed), ?_⟩
      rw [Json.get?] at hmember
      rw [Json.get?, lookup_mergeMembers_eq, hmember]
      simp
  case isFalse =>
      cases htext
      exact ⟨doc, hS.parse_dump hwell, by simp [hmember]⟩

/-- An id that is no text ends the loop over the indexes. -/
theorem exec_updateIndexes_raised {root : String} (h : Index contents root documents) {value : Json}
    (hvalue : j.get? "id" = some value) (hno : j.stringAt "id" = none) (documentHash : String)
    (σ : String → String) :
    (updateIndexes S tid entityId documentId documentHash op j root
      (S.iteration (edgesOf S root))).exec σ = (σ, none) := by
  rcases h with ⟨bNode, cNode, rootData, bData, cData, hroot, -, -⟩
  rw [hS.edgesOf_single hroot, hS.iteration_singleton, updateIndexes, hvalue]
  cases value with
  | str s => simp [Json.stringAt, hvalue] at hno
  | null | bool b | num q | arr xs | obj members => rfl

/-- The links of the collection follow the change of a document that has one. -/
theorem exec_changeDocument (hindex : Index contents (dht (dataRootKey tid entityId)) documents)
    (hop : op ≠ .create) (hparse : S.parse text = some j) {value : String}
    (hvalue : j.stringAt "id" = some value) (hlink : documents documentId ≠ none) :
    ∃ dht' hash, Index contents (dht' (dataRootKey tid entityId))
        (op.apply documentId hash documents) ∧
      (createOrDeleteDocument S x source channelId txid tid entityId documentId text op).exec
        dht = (dht', some ()) := by
  have hname : (if op = .create then
      nameDocument S (sentEnv x.guid) source channelId txid text else .ret text : Cmd String).exec
        dht = (dht, some text) := by
    rw [if_neg hop]
    rfl
  rw [exec_createOrDeleteDocument_silent (sentEnv x.guid) hop (hindex.ne_empty hS)]
  rcases exec_createOrDeleteDocument hS (delivered_sentEnv x.guid source) hindex (if_neg hop) hname
    hparse (stringAt_eq_some.mp hvalue) (.inr hlink) with ⟨hash, root', -, hroot, hexec⟩
  refine ⟨_, hash, ?_, hexec⟩
  rwa [Function.update_self]

/-- Without a link, or without a text as id, the change raises. -/
theorem exec_changeDocument_raised (hindex : Index contents (dht (dataRootKey tid entityId)) documents)
    (hop : op ≠ .create) (hparse : S.parse text = some j) (hnamed : j.get? "id" ≠ none)
    (h : documents documentId = none ∨ j.stringAt "id" = none) :
    ∃ dht', (createOrDeleteDocument S x source channelId txid tid entityId documentId text op).exec
      dht = (dht', none) := by
  rcases Option.ne_none_iff_exists'.mp hnamed with ⟨value, hvalue⟩
  cases hno : j.stringAt "id" with
  | some id =>
      have hlink := h.resolve_right (by simp [hno])
      rcases exec_createOrDeleteDocument_missing hS hindex hop hparse (stringAt_eq_some.mp hno)
        hlink with ⟨hash, hexec⟩
      exact ⟨_, hexec⟩
  | none =>
      -- the key of the document is put before the loop raises
      obtain ⟨hash, hhash⟩ : ∃ hash, (if op = .delete then (.ret "" : Cmd String)
          else addObject S text).exec dht = (dht, some hash) := by
        split
        · exact ⟨"", rfl⟩
        · exact ⟨_, exec_addObject dht text⟩
      have hexec : ∀ σ, (updateIndexes S tid entityId documentId hash op j
          (dht (dataRootKey tid entityId))
          (S.iteration (edgesOf S (dht (dataRootKey tid entityId))))).exec σ = (σ, none) :=
        exec_updateIndexes_raised hS hindex hvalue hno hash
      refine ⟨Function.update dht (documentKey tid entityId documentId) hash, ?_⟩
      simp [createOrDeleteDocument, Prog.exec_bind, hindex.ne_empty hS, hop, hhash, hparse, hexec]

/-- The loop puts nothing out, and comes to its end if all documents can be changed. -/
theorem eachDocument_spec (hindex : Index contents (dht (dataRootKey tid entityId)) documents)
    (hop : op ≠ .create) {docs : List Json} (hheld : ∀ doc ∈ docs, doc.held = true) :
    (eachDocument S x source channelId txid tid entityId payload op docs).outputs dht = [] ∧
      (((eachDocument S x source channelId txid tid entityId payload op docs).exec dht).2 =
        some () ↔ Changeable S documents op payload docs) := by
  -- the links are those that the documents before have left
  induction docs generalizing dht documents with
  | nil => exact ⟨rfl, iff_of_true rfl ⟨by simp, fun _ => List.nodup_nil⟩⟩
  | cons doc docs ih =>
      -- a document without a link ends the loop
      have hstop : ¬HasLink S documents op payload doc →
          ¬Changeable S documents op payload (doc :: docs) :=
        fun hlink h => hlink (h.1 doc List.mem_cons_self)
      rcases List.forall_mem_cons.mp hheld with ⟨hdoc, hdocs⟩
      by_cases hraise : doc.stringAt "id" = none ∨ changedText S payload op doc = none
      · rw [eachDocument_raise docs hraise]
        exact ⟨rfl, iff_of_false (by simp [Prog.exec]) (hstop (not_hasLink_of_raise hraise))⟩
      · rw [not_or, ← ne_eq, Option.ne_none_iff_exists', ← ne_eq,
          Option.ne_none_iff_exists'] at hraise
        rcases hraise with ⟨⟨documentId, hid⟩, text, htext⟩
        rcases exists_id_of_changedText hS hdoc hid htext with ⟨j, hparse, hnamed⟩
        have hsilent : (createOrDeleteDocument S x source channelId txid tid entityId documentId
            text op).outputs dht = [] :=
          outputs_changeDocument hop (hindex.ne_empty hS)
        rw [eachDocument_cons_eq docs hid htext]
        -- the invariant is the index: a document with a link leaves one behind
        by_cases hlink : HasLink S documents op payload doc
        · rcases (hasLink_iff hS hdoc hid htext hparse).mp hlink with ⟨hknown, hsome⟩
          rcases Option.isSome_iff_exists.mp hsome with ⟨value, hvalue⟩
          rcases exec_changeDocument hS hindex hop hparse hvalue hknown with
            ⟨dht', hash, hindex', hexec⟩
          rcases ih hindex' hdocs with ⟨houtputs, hiff⟩
          rw [outputs_bind_of_exec hsilent hexec, Prog.exec_bind, hexec,
            changeable_cons_iff hid hlink hash]
          exact ⟨houtputs, hiff⟩
        · have hmissing : documents documentId = none ∨ j.stringAt "id" = none := by
            rw [hasLink_iff hS hdoc hid htext hparse, not_and_or, not_not,
              Bool.not_eq_true, Option.isSome_eq_false_iff, Option.isNone_iff_eq_none] at hlink
            exact hlink
          rcases exec_changeDocument_raised hS hindex hop hparse hnamed hmissing with ⟨dht', hexec⟩
          rw [Prog.outputs_bind, Prog.exec_bind, hsilent, hexec]
          exact ⟨rfl, iff_of_false (by simp) (hstop hlink)⟩

/-- The links of the collection below the root of an entity. -/
theorem documentOf_eq (hindex : Index contents (dht (dataRootKey tid entityId)) documents) :
    documentOf S dht tid entityId = documents := by
  funext documentId
  have hne := hindex.ne_empty hS
  rcases hindex with ⟨bNode, cNode, rootData, bData, cData, hroot, hb, hc⟩
  rw [documentOf, if_neg hne, hS.at?_edgesOf hroot, Merkle.single_self]
  simp only [Option.bind_eq_bind, Option.bind_some]
  rw [hS.at?_edgesOf hb, Merkle.single_self, Option.bind_some, hS.at?_edgesOf hc]

variable {guid : Guid} {status : Delivery} (hreached : source = "1" → status = .sent)

include hreached

/-- Success is told behind the loop, so it is not told when one of the documents raises. -/
theorem answeredBy_of_found (hindex : Index contents (dht (dataRootKey tid entityId)) documents)
    (hop : op ≠ .create) {expression : String} {docs : List Json} (hne : docs ≠ [])
    (hfound : S.evaluate (dht (dataRootKey tid entityId)) expression = some (.arr docs)) :
    AnsweredBy S dht (foundDocuments S dht tid entityId expression = [] ∨
          op = .update ∧ ¬Acceptable S payload)
        (updateOrDeleteDocument S (answerEnv guid status) source channelId txid tid entityId
          expression payload op) ↔
      Changeable S documents op payload docs := by
  have hroot := hindex.ne_empty hS
  have hsearch : (searchDocument S tid entityId expression).exec dht = _ :=
    exec_searchDocument_eq hroot expression
  rw [hfound] at hsearch
  have hempty : ¬(Json.arr docs).isEmpty = true := by simpa [Json.isEmpty] using hne
  have hbegin : (updateOrDeleteDocument S (answerEnv guid status) source channelId txid tid
      entityId expression payload op).outputs dht = (eachDocument S (answerEnv guid status) source
        channelId txid tid entityId payload op docs >>= fun _ =>
          send (answerEnv guid status) source channelId .stateChange txid ""
            (if op = .update then msgDocumentUpdate else msgDocumentDelete)).outputs dht := by
    rw [updateOrDeleteDocument, outputs_bind_of_exec (outputs_dhtGet _) (exec_dhtGet ..),
      if_neg hroot, outputs_bind_of_exec (outputs_searchDocument expression) hsearch,
      if_neg hempty]
  have hspec : (eachDocument S (answerEnv guid status) source channelId txid tid entityId payload
      op docs).outputs dht = [] ∧ _ := eachDocument_spec hS hindex hop
    (Json.held_arr.mp (hS.held_of_evaluate hfound))
  rcases hspec with ⟨hsilent, hiff⟩
  rw [← hiff]
  rcases hexec : (eachDocument S (answerEnv guid status) source channelId txid tid entityId payload
    op docs).exec dht with ⟨dht', _ | _⟩
  -- one of the documents has raised
  · have houtputs : (updateOrDeleteDocument S (answerEnv guid status) source channelId txid tid
        entityId expression payload op).outputs dht = [] := by
      rw [hbegin, Prog.outputs_bind, hsilent, hexec]
      rfl
    exact iff_of_false (not_answeredBy_of_outputs houtputs (by simp)) (by simp)
  · have houtputs : (updateOrDeleteDocument S (answerEnv guid status) source channelId txid tid
        entityId expression payload op).outputs dht = [reply source channelId .stateChange txid ""
          (if op = .update then msgDocumentUpdate else msgDocumentDelete)] := by
      rw [hbegin, outputs_bind_of_exec hsilent hexec, outputs_send hreached]
    rw [answeredBy_stateChange_iff houtputs]
    refine iff_of_true ?_ rfl
    rintro ⟨hnone | ⟨hupdate, hrefused⟩, -⟩
    · rw [foundDocuments, if_neg hroot, hfound] at hnone
      exact hne hnone
    · rw [hexec] at hiff
      rcases List.exists_mem_of_ne_nil docs hne with ⟨doc, hdoc⟩
      rcases (hiff.mp rfl).1 doc hdoc with ⟨-, documentId, -, -, hmerged⟩
      rcases hmerged hupdate with ⟨text, j, htext, -⟩
      exact hrefused (acceptable_of_updateValues htext)

/-- An update or a delete of documents answers once if and only if it is searchable. -/
theorem answeredBy_updateOrDeleteDocument
    (hentity : IsEntity contents (dht (dataRootKey tid entityId))) (hop : op ≠ .create)
    (expression : String) :
    AnsweredBy S dht (foundDocuments S dht tid entityId expression = [] ∨
          op = .update ∧ ¬Acceptable S payload)
        (updateOrDeleteDocument S (answerEnv guid status) source channelId txid tid entityId
          expression payload op) ↔
      Searchable S dht tid entityId expression op payload := by
  by_cases hroot : dht (dataRootKey tid entityId) = ""
  · have houtputs : (updateOrDeleteDocument S (answerEnv guid status) source channelId txid tid
        entityId expression payload op).outputs dht =
          [reply source channelId .exception txid "" msgDocumentRootNotFound] := by
      rw [updateOrDeleteDocument, outputs_bind_of_exec (outputs_dhtGet _) (exec_dhtGet ..),
        if_pos hroot, outputs_send hreached]
    refine iff_of_true (answeredBy_exception houtputs ?_ (.inl (if_pos hroot))) (.inl hroot)
    simp [updateOrDeleteDocument, Prog.exec_bind, hroot, exec_send_reached hreached]
  rcases hentity.resolve_left hroot with ⟨documents, hindex⟩
  have hquiet : (searchDocument S tid entityId expression).outputs dht = [] :=
    outputs_searchDocument expression
  have hsearch : (searchDocument S tid entityId expression).exec dht = _ :=
    exec_searchDocument_eq hroot expression
  rw [Searchable, or_iff_right hroot, documentOf_eq hS hindex]
  cases hfound : S.evaluate (dht (dataRootKey tid entityId)) expression with
  | none =>
      have houtputs : (updateOrDeleteDocument S (answerEnv guid status) source channelId txid tid
          entityId expression payload op).outputs dht = [] := by
        simp [updateOrDeleteDocument, Prog.outputs_bind, hroot, hquiet, hsearch, hfound]
      exact iff_of_false (not_answeredBy_of_outputs houtputs (by simp)) (by simp)
  | some found =>
      rw [hfound] at hsearch
      by_cases hempty : found.isEmpty = true
      · have houtputs : (updateOrDeleteDocument S (answerEnv guid status) source channelId txid tid
            entityId expression payload op).outputs dht =
              [reply source channelId .exception txid "" msgDocumentNotFound] := by
          rw [updateOrDeleteDocument, outputs_bind_of_exec (outputs_dhtGet _) (exec_dhtGet ..),
            if_neg hroot, outputs_bind_of_exec hquiet hsearch, if_pos hempty, outputs_send hreached]
        have hnone : foundDocuments S dht tid entityId expression = [] := by
          rw [foundDocuments, if_neg hroot, hfound]
          cases found with
          | arr docs => simpa [Json.isEmpty] using hempty
          | null | bool b | num q | str s | obj members => rfl
        refine iff_of_true (answeredBy_exception houtputs ?_ (.inl hnone)) ⟨found, rfl, .inl hempty⟩
        simp [updateOrDeleteDocument, Prog.exec_bind, hroot, hsearch, hempty,
          exec_send_reached hreached]
      · cases found with
        -- the loop is over the array of an answer, and raises on anything else
        | null | bool b | num q | str s | obj members =>
            have houtputs : (updateOrDeleteDocument S (answerEnv guid status) source channelId txid
                tid entityId expression payload op).outputs dht = [] := by
              simp [updateOrDeleteDocument, Prog.outputs_bind, hroot, hquiet, hsearch, hempty]
            refine iff_of_false (not_answeredBy_of_outputs houtputs (by simp)) ?_
            rintro ⟨_, ⟨⟩, hnone | ⟨docs, hdocs, -⟩⟩
            · exact hempty hnone
            · cases hdocs
        | arr docs =>
            have hne : docs ≠ [] := by simpa [Json.isEmpty] using hempty
            rw [answeredBy_of_found hS hreached hindex hop hne hfound]
            constructor
            · intro hchangeable
              exact ⟨_, rfl, .inr ⟨docs, rfl, hchangeable⟩⟩
            · rintro ⟨_, ⟨⟩, hnone | ⟨docs', ⟨⟩, hchangeable⟩⟩
              · exact absurd hnone hempty
              · exact hchangeable

end Documents

/-! ## All commands -/

section Commands

variable {S : Services} {contents : String → Option Contents} (hS : S.Lawful contents)
  {dht : String → String} {words : List String} {guid : Guid}
  {source channelId txid tid : String} {status : Delivery}

/-- A client that is not reached gets nothing. -/
theorem outputs_unreached (h : ¬(source = "1" → status = .sent)) :
    (executeStateChangeCommand S (answerEnv guid status) words source channelId txid tid).outputs
      dht = [] := by
  rw [Classical.not_imp] at h
  rcases h with ⟨rfl, hlost⟩
  have hsend : SendsOnly (answerEnv guid status) "1" fun _ => False := by
    intro channelId cmd txid objectId val
    unfold send
    rw [if_pos rfl]
    cases status with
    | sent => exact absurd rfl hlost
    | skipped | raised => trivial
  have hconfined := confined_executeStateChangeCommand S hsend words channelId txid tid
  exact Prog.outputs_of_silent hconfined.2.2 dht

include hS

/-- Every command answers once, if and only if it is answerable. -/
theorem answeredBy_executeStateChangeCommand (hreached : source = "1" → status = .sent)
    (hdht : Grounded contents dht) :
    AnsweredOnce S dht words guid status source channelId txid tid ↔ Answerable S dht words tid := by
  have htree : ∀ tree : ObjectTree, IsTree contents (dht (tree.root tid)) :=
    fun tree => (hdht (tree.root tid)).tree tree tid rfl
  have hentity : ∀ entityId, IsEntity contents (dht (dataRootKey tid entityId)) :=
    fun entityId => (hdht (dataRootKey tid entityId)).entity tid entityId rfl
  have hadd : ∀ (tree : ObjectTree) (object : String), AnsweredBy S dht False
      (addChildNode S (answerEnv guid status) source channelId txid tid tree.name object) :=
    fun tree object => answeredBy_addChildNode hreached channelId txid object
  have hdelete : ∀ (tree : ObjectTree) (objectId : String),
      AnsweredBy S dht (linkOf S dht tree tid objectId = none)
          (deleteObject S (answerEnv guid status) source tree.name channelId txid tid objectId) ↔
        Deletable S dht tree tid objectId := by
    intro tree objectId
    rcases htree tree with ⟨links, hrooted, -⟩
    exact answeredBy_deleteObject hreached channelId txid hS hrooted
  have hchange : ∀ op : DocumentOp, op ≠ .create → ∀ entityId expression payload : String,
      AnsweredBy S dht (foundDocuments S dht tid entityId expression = [] ∨
            op = .update ∧ ¬Acceptable S payload)
          (updateOrDeleteDocument S (answerEnv guid status) source channelId txid tid entityId
            expression payload op) ↔
        Searchable S dht tid entityId expression op payload :=
    fun op hop entityId expression payload =>
      answeredBy_updateOrDeleteDocument hS hreached (hentity entityId) hop expression
  unfold AnsweredOnce
  cases hnumber : stoi (word words 0) with
  | none =>
      simp only [Unserviceable, Answerable, executeStateChangeCommand, hnumber, orRaise,
        Prog.raise_bind, Option.bind_none, iff_false]
      exact not_answeredBy_of_outputs outputs_raise (by simp)
  | some number =>
      simp only [Unserviceable, Answerable, executeStateChangeCommand, hnumber, orRaise,
        Prog.ret_bind, Option.bind_some]
      cases Command.ofCode number with
      -- a number of no command falls through the switch, without an answer
      | none => exact iff_of_false (not_answeredBy_of_outputs (outputs_ret ()) (by simp)) id
      | some command =>
          cases command with
          | addFunction => exact iff_of_true (hadd .function _) trivial
          | addTemplate => exact iff_of_true (hadd .template _) trivial
          | addDocument => exact answeredBy_createDocument hreached
          | updateFunction =>
              exact answeredBy_updateChildNode hreached channelId txid hS (htree .function)
          | updateTemplate =>
              exact answeredBy_updateChildNode hreached channelId txid hS (htree .template)
          | deleteFunction => exact hdelete .function _
          | deleteTemplate => exact hdelete .template _
          | updateDocument =>
              simpa only [true_and] using hchange .update (by decide) (word words 1) (word words 2)
                (S.base64_decode (word words 3))
          | deleteDocument =>
              have hdeletes := hchange .delete (by decide) (word words 1) (word words 2) ""
              have hno : ¬DocumentOp.delete = .update := by decide
              simpa only [hno, false_and, or_false] using hdeletes

end Commands

end DecentralizedCloud.Storage
