import DecentralizedCloud.Storage.AnswerOnce

/-!
# A create that is rejected

A new document gets its id as a member, which only an object has room for. The handler around
this step reports any other body with an exception and goes on: the body is stored under the
key of the new id, and reported as a success. A body that is `null` becomes an object and is not
even reported. So a create leaves no trace only where there is no entity to create in, or where
what it stores is what is there, and the success gets lost on its way (`rejected_iff`).
-/

namespace DecentralizedCloud.Storage

open Schedule

section Rejected

variable (S : Services) (x : CommandEnv) (dht : String → String)

/-- The command sends one exception and nothing else, and the DHT is as it was. -/
def Rejected (words : List String) (source channelId txid tid : String) : Prop :=
  ∃ response, response.isException = true ∧
    (executeStateChangeCommand S x words source channelId txid tid).run dht = (dht, [response])

/-- There is no entity, and the client gets to know of it; or it gets to know of the body, but
not of the document, whose key has had the hash of the body before. -/
def RejectsAtOnce (entityId text source channelId txid tid : String) : Prop :=
  if dht (dataRootKey tid entityId) = "" then
    GoesOut x (reply source channelId .exception txid "" msgTemplateNotFound)
  else S.parse text ≠ some .null ∧
    GoesOut x (reply source channelId .exception txid "" msgInvalidDocumentStructure) ∧
    ¬GoesOut x (reply source channelId .stateChange txid x.guid ((S.objectPut text []).getD "")) ∧
    dht (documentKey tid entityId x.guid) = (S.objectPut text []).getD ""

end Rejected

section Create

variable {S : Services} {x : CommandEnv} {dht : String → String}
  {source channelId txid tid entityId documentId text : String}

/-- What has no members has no value for any index. -/
theorem updateIndexes_of_no_object {j : Json} (hj : ∀ members, j ≠ .obj members)
    (documentHash entityRoot : String) (op : DocumentOp) (indexes : List (String × String)) :
    updateIndexes S tid entityId documentId documentHash op j entityRoot indexes = .ret () := by
  have hget : ∀ index, j.get? index = none := by
    intro index
    cases j with
    | obj members => exact absurd rfl (hj members)
    | null | bool b | num q | str s | arr xs => rfl
  induction indexes with
  | nil => rfl
  | cons edge indexes ih =>
      rcases edge with ⟨index, bNode⟩
      simp only [updateIndexes, hget index]
      exact ih

theorem not_nameable (hbody : ∀ members, S.parse text ≠ some (.obj members))
    (hnull : S.parse text ≠ some .null) : ¬Nameable S text := by
  unfold Nameable
  cases hparse : S.parse text with
  | none => exact id
  | some j =>
      cases j with
      | obj members => exact absurd hparse (hbody members)
      | null => exact absurd hparse hnull
      | bool b | num q | str s | arr xs => exact id

/-- The steps of a create behind the naming of the document. -/
def storeDocument (S : Services) (x : CommandEnv)
    (source channelId txid tid entityId entityRoot documentJson : String) : Cmd Unit := do
  let documentHash ← addObject S documentJson
  dhtPut (documentKey tid entityId x.guid) documentHash
  send x source channelId .stateChange txid x.guid documentHash
  let a_b ← getUnorderedEdgeNamesOf S entityRoot
  let inputJson ← orRaise (S.parse documentJson)
  updateIndexes S tid entityId x.guid documentHash .create inputJson entityRoot (S.iteration a_b)

theorem run_createDocument (hroot : dht (dataRootKey tid entityId) ≠ "") :
    (createOrDeleteDocument S x source channelId txid tid entityId documentId text .create).run
        dht =
      (nameDocument S x source channelId txid text >>= storeDocument S x source channelId txid tid
        entityId (dht (dataRootKey tid entityId))).run dht := by
  show (if dht (dataRootKey tid entityId) = "" then _ else _ : Cmd Unit).run dht = _
  rw [if_neg hroot]
  rfl

section Store

variable {entityRoot : String}

theorem outputs_storeDocument :
    (storeDocument S x source channelId txid tid entityId entityRoot text).outputs dht =
      (send x source channelId .stateChange txid x.guid ((S.objectPut text []).getD "")).outputs
        (Function.update dht (documentKey tid entityId x.guid)
          ((S.objectPut text []).getD "")) := by
  rcases exec_send x source channelId .stateChange txid x.guid ((S.objectPut text []).getD "") with
    ⟨answered, hanswer⟩
  rw [storeDocument, outputs_bind_of_exec (outputs_addObject _) (exec_addObject ..),
    outputs_bind_of_exec (outputs_dhtPut _ _) (exec_dhtPut ..), Prog.outputs_bind, hanswer]
  -- whether or not the answer raises, nothing is sent behind it
  cases answered with
  | none => exact List.append_nil _
  | some _ =>
      refine (congrArg _ (Silent.outputs ?_ _)).trans (List.append_nil _)
      refine Confined.bind (by simp) fun a_b => Confined.bind (by simp) fun inputJson => ?_
      exact confined_updateIndexes trivial ..

/-- A body without members is stored under the key of the document, and nowhere else. -/
theorem exec_storeDocument (hbody : ∀ members, S.parse text ≠ some (.obj members)) :
    ((storeDocument S x source channelId txid tid entityId entityRoot text).exec dht).1 =
      Function.update dht (documentKey tid entityId x.guid) ((S.objectPut text []).getD "") := by
  rcases exec_send x source channelId .stateChange txid x.guid ((S.objectPut text []).getD "") with
    ⟨answered, hanswer⟩
  cases hparse : S.parse text with
  | none => cases answered <;> simp [storeDocument, Prog.exec_bind, hanswer, hparse]
  | some j =>
      have hj : ∀ members, j ≠ .obj members := by
        rintro members rfl
        exact hbody members hparse
      cases answered <;>
        simp [storeDocument, Prog.exec_bind, hanswer, hparse, updateIndexes_of_no_object hj]

theorem storeDocument_not_exception {response : Response}
    (h : response ∈ (storeDocument S x source channelId txid tid entityId entityRoot
      text).outputs dht) : response.isException = false := by
  rw [outputs_storeDocument] at h
  by_cases hgoes : GoesOut x
    (reply source channelId .stateChange txid x.guid ((S.objectPut text []).getD ""))
  · rw [outputs_send_of_goesOut hgoes, List.mem_singleton] at h
    rw [h, ← Bool.not_eq_true, isException_reply]
    decide
  · rw [outputs_send_of_not_goesOut hgoes] at h
    cases h

end Store

variable {words : List String}

/-- A rejection, by what the command comes to. -/
theorem rejected_iff_outputs {q : Cmd Unit}
    (hrun : (executeStateChangeCommand S x words source channelId txid tid).run dht = q.run dht) :
    Rejected S x dht words source channelId txid tid ↔
      ∃ response, response.isException = true ∧ q.outputs dht = [response] ∧
        (q.exec dht).1 = dht := by
  apply exists_congr
  intro response
  rw [hrun, Prod.ext_iff, Prog.run_fst, and_comm (a := (q.exec dht).1 = _)]
  exact Iff.rfl

theorem run_addDocument (hcode : (stoi (word words 0)).bind Command.ofCode = some .addDocument) :
    (executeStateChangeCommand S x words source channelId txid tid).run dht =
      (createOrDeleteDocument S x source channelId txid tid (word words 1) ""
        (S.base64_decode (word words 2)) .create).run dht := by
  rcases Option.bind_eq_some_iff.mp hcode with ⟨number, hnumber, hcommand⟩
  simp only [executeStateChangeCommand, hnumber, orRaise, Prog.ret_bind, hcommand]

/-- Without an entity the create is rejected as soon as the client gets to know of it. -/
theorem rejected_iff_of_empty
    (hcode : (stoi (word words 0)).bind Command.ofCode = some .addDocument)
    (hroot : dht (dataRootKey tid (word words 1)) = "") :
    Rejected S x dht words source channelId txid tid ↔
      GoesOut x (reply source channelId .exception txid "" msgTemplateNotFound) := by
  have hrun : (executeStateChangeCommand S x words source channelId txid tid).run dht =
      (send x source channelId .exception txid "" msgTemplateNotFound).run dht := by
    rw [run_addDocument hcode]
    show (if dht (dataRootKey tid (word words 1)) = "" then _ else _ : Cmd Unit).run dht = _
    rw [if_pos hroot]
  rcases exec_send x source channelId .exception txid "" msgTemplateNotFound with
    ⟨answered, hanswer⟩
  rw [rejected_iff_outputs hrun, hanswer]
  constructor
  · rintro ⟨response, -, houtputs, -⟩
    by_contra hgoes
    rw [outputs_send_of_not_goesOut hgoes] at houtputs
    cases houtputs
  · intro hgoes
    exact ⟨_, (isException_reply ..).mpr rfl, outputs_send_of_goesOut hgoes, rfl⟩

section Stored

variable (hcode : (stoi (word words 0)).bind Command.ofCode = some .addDocument)
  (hroot : dht (dataRootKey tid (word words 1)) ≠ "")

include hcode hroot

theorem run_addDocument_of_root :
    (executeStateChangeCommand S x words source channelId txid tid).run dht =
      (nameDocument S x source channelId txid (S.base64_decode (word words 2)) >>=
        storeDocument S x source channelId txid tid (word words 1)
          (dht (dataRootKey tid (word words 1)))).run dht := by
  rw [run_addDocument hcode, run_createDocument hroot]

/-- An exception that does not go out is not sent later on. -/
theorem not_rejected_of_named (h : ∀ {response}, response ∈ (nameDocument S x source channelId txid
    (S.base64_decode (word words 2))).outputs dht → response.isException = false) :
    ¬Rejected S x dht words source channelId txid tid := by
  rw [rejected_iff_outputs (run_addDocument_of_root hcode hroot), Prog.outputs_bind]
  rintro ⟨response, hexception, houtputs, -⟩
  have hmem : response ∈ [response] := List.mem_singleton_self response
  rw [← houtputs, List.mem_append] at hmem
  rcases hmem with hnamed | hstored
  · rw [h hnamed] at hexception
    cases hexception
  · split at hstored
    · rw [storeDocument_not_exception hstored] at hexception
      cases hexception
    · cases hstored

/-- A body that is reported is stored and reported once more. -/
theorem rejected_iff_of_reported
    (hbody : ∀ members, S.parse (S.base64_decode (word words 2)) ≠ some (.obj members))
    (hnull : S.parse (S.base64_decode (word words 2)) ≠ some .null)
    (hgoes : GoesOut x (reply source channelId .exception txid "" msgInvalidDocumentStructure)) :
    Rejected S x dht words source channelId txid tid ↔
      ¬GoesOut x (reply source channelId .stateChange txid x.guid
          ((S.objectPut (S.base64_decode (word words 2)) []).getD "")) ∧
        dht (documentKey tid (word words 1) x.guid) =
          (S.objectPut (S.base64_decode (word words 2)) []).getD "" := by
  have hnameable := not_nameable hbody hnull
  have hname : nameDocument S x source channelId txid (S.base64_decode (word words 2)) = _ :=
    nameDocument_of_not_nameable hnameable
  have hexec : (nameDocument S x source channelId txid (S.base64_decode (word words 2))).exec dht =
      (dht, some (S.base64_decode (word words 2))) := by
    rw [hname, Prog.exec_bind, exec_send_of_goesOut hgoes]
    rfl
  have houtputs : (nameDocument S x source channelId txid
      (S.base64_decode (word words 2))).outputs dht =
        [reply source channelId .exception txid "" msgInvalidDocumentStructure] := by
    rw [hname, Prog.outputs_bind, exec_send_of_goesOut hgoes, outputs_send_of_goesOut hgoes]
    rfl
  rw [rejected_iff_outputs (run_addDocument_of_root hcode hroot), Prog.outputs_bind, Prog.exec_bind,
    hexec, houtputs]
  dsimp only
  rw [outputs_storeDocument, exec_storeDocument hbody, Function.update_eq_self_iff,
    eq_comm (a := (S.objectPut (S.base64_decode (word words 2)) []).getD "")]
  constructor
  -- with the answer to the store there are two
  · rintro ⟨response, -, hone, hkey⟩
    refine ⟨?_, hkey⟩
    intro hsuccess
    rw [outputs_send_of_goesOut hsuccess] at hone
    cases hone
  -- without it the exception is the only one
  · rintro ⟨hsuccess, hkey⟩
    have hexception := (isException_reply source channelId .exception txid ""
      msgInvalidDocumentStructure).mpr rfl
    refine ⟨_, hexception, ?_, hkey⟩
    rw [outputs_send_of_not_goesOut hsuccess, List.append_nil]

end Stored

/-- A create of what is no object is rejected without a trace if and only if it ends at once, or
repeats what has been stored. -/
theorem rejected_iff (hcode : (stoi (word words 0)).bind Command.ofCode = some .addDocument)
    (hbody : ∀ members, S.parse (S.base64_decode (word words 2)) ≠ some (.obj members)) :
    Rejected S x dht words source channelId txid tid ↔
      RejectsAtOnce S x dht (word words 1) (S.base64_decode (word words 2)) source channelId txid
        tid := by
  unfold RejectsAtOnce
  by_cases hroot : dht (dataRootKey tid (word words 1)) = ""
  · rw [if_pos hroot]
    exact rejected_iff_of_empty hcode hroot
  · rw [if_neg hroot]
    by_cases hnull : S.parse (S.base64_decode (word words 2)) = some .null
    -- `null` gets the id as a member
    · refine iff_of_false ?_ fun h => h.1 hnull
      apply not_rejected_of_named hcode hroot
      have hnameable : Nameable S (S.base64_decode (word words 2)) := by
        unfold Nameable
        rw [hnull]
        trivial
      rcases nameDocument_of_nameable hnameable with ⟨named, hnamed⟩
      intro response hresponse
      rw [hnamed] at hresponse
      cases hresponse
    · rw [and_iff_right hnull]
      by_cases hgoes : GoesOut x
        (reply source channelId .exception txid "" msgInvalidDocumentStructure)
      · rw [and_iff_right hgoes]
        exact rejected_iff_of_reported hcode hroot hbody hnull hgoes
      · refine iff_of_false ?_ fun h => hgoes h.1
        apply not_rejected_of_named hcode hroot
        intro response hresponse
        rw [nameDocument_of_not_nameable (not_nameable hbody hnull), Prog.outputs_bind,
          outputs_send_of_not_goesOut hgoes, List.nil_append] at hresponse
        split at hresponse <;> cases hresponse

end Create

namespace Sample

/-- A create with an empty body. -/
def emptyCreate : List String := ["2", "entity", ""]

theorem emptyCreate_code : (stoi (word emptyCreate 0)).bind Command.ofCode = some .addDocument := by
  decide

theorem parse_emptyCreate :
    identityServices.parse (identityServices.base64_decode (word emptyCreate 2)) = none := by
  have hdecoded : decodedIds "" = "" := by decide
  have hparse : identityServices.parse (identityServices.base64_decode (word emptyCreate 2)) =
      Json.parse (decodedIds "") := rfl
  rw [hparse, hdecoded]
  decide

/-- Exceptions go out, and successes do not. -/
def lossyEnv : CommandEnv :=
  { guid := newId, delivery := fun response => if response.isException then .sent else .raised }

theorem goesOut_lossyEnv {cmd : CommandType} {txid objectId val : String} :
    GoesOut lossyEnv (reply "1" "n" cmd txid objectId val) ↔ cmd = .exception := by
  have hgoes : GoesOut lossyEnv (reply "1" "n" cmd txid objectId val) ↔
      lossyEnv.delivery (reply "1" "n" cmd txid objectId val) = .sent := Iff.rfl
  rw [hgoes, ← isException_reply "1" "n" cmd txid objectId val]
  by_cases h : (reply "1" "n" cmd txid objectId val).isException = true <;> simp [lossyEnv, h]

end Sample

/-- There is an entity, and under the key of the new document the hash of the empty body. -/
theorem rejected_iff_lost :
    ∃ dht, (addChildNode Sample.identityServices (Sample.gossipEnv "entity") "0" "n" "w" "t"
        templateTree "").exec (fun _ => "") = (dht, some ()) ∧
      Rejected Sample.identityServices Sample.lossyEnv
        (Function.update dht (documentKey "t" "entity" "d")
          ((Sample.identityServices.objectPut "" []).getD ""))
        Sample.emptyCreate "1" "n" "w" "t" := by
  rcases Sample.exists_entity with ⟨dht, hentity⟩
  have hindex := (indexOf_new Sample.identityServices_lawful hentity).index
  have hroot : Function.update dht (documentKey "t" "entity" "d")
      ((Sample.identityServices.objectPut "" []).getD "") (dataRootKey "t" "entity") ≠ "" := by
    rw [Function.update_of_ne (documentKey_ne_dataRootKey "t" "entity" "d").symm]
    exact hindex.ne_empty Sample.identityServices_lawful
  refine ⟨dht, hentity, (rejected_iff Sample.emptyCreate_code ?_).mpr ?_⟩
  · simp [Sample.parse_emptyCreate]
  · refine (if_neg hroot).mpr ⟨?_, Sample.goesOut_lossyEnv.mpr rfl, ?_, ?_⟩
    · simp [Sample.parse_emptyCreate]
    · exact fun h => absurd (Sample.goesOut_lossyEnv.mp h) (by decide)
    · exact Function.update_self ..

/-- There is an entity: the empty body is reported as invalid, stored, and reported as new. -/
theorem invalid_document_stored :
    ∃ dht, (addChildNode Sample.identityServices (Sample.gossipEnv "entity") "0" "n" "w" "t"
        templateTree "").exec (fun _ => "") = (dht, some ()) ∧
      Sample.identityServices.parse
        (Sample.identityServices.base64_decode (word Sample.emptyCreate 2)) = none ∧
      ¬Rejected Sample.identityServices (Sample.gossipEnv "d") dht Sample.emptyCreate "0" "n" "w"
        "t" := by
  rcases Sample.exists_entity with ⟨dht, hentity⟩
  have hindex := (indexOf_new Sample.identityServices_lawful hentity).index
  have hroot : dht (dataRootKey "t" "entity") ≠ "" := hindex.ne_empty Sample.identityServices_lawful
  refine ⟨dht, hentity, Sample.parse_emptyCreate, ?_⟩
  have hbody : ∀ j, Sample.identityServices.parse
      (Sample.identityServices.base64_decode (word Sample.emptyCreate 2)) ≠ some j := by
    simp [Sample.parse_emptyCreate]
  have hgoes : ∀ cmd txid objectId val,
      GoesOut (Sample.gossipEnv "d") (reply "0" "n" cmd txid objectId val) := fun _ _ _ _ => trivial
  intro hrejected
  have hlost := (rejected_iff_of_reported Sample.emptyCreate_code hroot (fun members => hbody _)
    (hbody _) (hgoes ..)).mp hrejected
  exact hlost.1 (hgoes ..)

end DecentralizedCloud.Storage
