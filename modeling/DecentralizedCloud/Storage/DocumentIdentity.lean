import DecentralizedCloud.Storage.Replies

/-!
# Identity of documents

Three places name a document of an entity: the link of the collection, the key of the
DHT, and the member "id" of the object itself. A command takes the id of a document
from its object and finds link and key by it, so it relies on the three to agree
(`Identity`).

An update merges its payload into the object whatever it names, and so may move the
member "id" away from the other two. As long as no payload does, and every new
document gets an id that is not in use, they agree after every command
(`identity_kept`).
-/

namespace DecentralizedCloud.Storage

open Machine Schedule

/-! ## Entities and their commands -/

section Entity

variable (S : Services) (contents : String → Option Contents) (tid entityId : String)

/-- The object is a document with this id. -/
def NamesItself (hash documentId : String) : Prop :=
  ∃ data links j, contents hash = some (data, links) ∧ S.parse data = some j ∧
    j.get? "id" = some (.str documentId)

/-- Every link of the collection leads to a document with its name as id, and the key of
the document has the same hash. -/
structure Identity (dht : String → String) : Prop where
  entity : IsEntity contents (dht (dataRootKey tid entityId))
  linked : ∀ {documents}, Index contents (dht (dataRootKey tid entityId)) documents →
    ∀ {documentId hash}, documents documentId = some hash →
      dht (documentKey tid entityId documentId) = hash ∧ NamesItself S contents hash documentId

/-- Who sends a command, and what it meets. -/
structure Caller where
  source : String
  channelId : String
  txid : String
  env : CommandEnv

/-- A command on the documents of an entity, or anything else that happens. -/
inductive EntityEvent where
  | create (caller : Caller) (text : String)
  | update (caller : Caller) (expression text : String)
  | delete (caller : Caller) (expression : String)
  | elsewhere (dht' : String → String)

def Caller.execute (caller : Caller) (words : List String) (dht : String → String) :
    String → String :=
  ((executeStateChangeCommand S caller.env words caller.source caller.channelId caller.txid
    tid).run dht).1

def entityStep : Step (String → String) EntityEvent := fun dht e =>
  match e with
  | .create caller text => some (caller.execute S tid ["2", entityId, text] dht)
  | .update caller expression text =>
      some (caller.execute S tid ["5", entityId, expression, text] dht)
  | .delete caller expression => some (caller.execute S tid ["8", entityId, expression] dht)
  | .elsewhere dht' => some dht'

/-- The id that a payload names is that of each document that the filter finds. -/
def KeepsIds (dht : String → String) (expression payload : String) : Prop :=
  ∀ docs members named, S.evaluate (dht (dataRootKey tid entityId)) expression = some (.arr docs) →
    S.parse payload = some (.obj members) →
    (mergeMembers [] members).lookup "id" = some named → ∀ doc ∈ docs, doc.get? "id" = some named

/-- A new document gets an id that no other one has, an update keeps the ids, and what
happens elsewhere leaves the keys of the entity alone or removes the entity. -/
def Careful (dht : String → String) : EntityEvent → Prop
  | .create caller _ => ∀ documents, Index contents (dht (dataRootKey tid entityId)) documents →
      documents caller.env.guid = none
  | .update _ expression text => KeepsIds S tid entityId dht expression (S.base64_decode text)
  | .delete _ _ => True
  | .elsewhere dht' =>
      (dht' (dataRootKey tid entityId) = dht (dataRootKey tid entityId) ∨
        dht' (dataRootKey tid entityId) = "") ∧
      ∀ documentId, dht' (documentKey tid entityId documentId) =
        dht (documentKey tid entityId documentId)

end Entity

/-! ## Writing a document -/

section Writes

variable {S : Services} {contents : String → Option Contents} {tid entityId : String}
  {dht : String → String} {documents : String → Option String} {documentId hash root : String}

theorem documentKey_ne_dataRootKey (tid entityId documentId : String) :
    documentKey tid entityId documentId ≠ dataRootKey tid entityId :=
  documentKey_ne_rootKey tid entityId documentId _

/-- A document without a link may get any hash. -/
theorem Identity.unlinked (h : Identity S contents tid entityId dht)
    (hindex : Index contents (dht (dataRootKey tid entityId)) documents)
    (hnone : documents documentId = none) (value : String) :
    Identity S contents tid entityId
      (Function.update dht (documentKey tid entityId documentId) value) := by
  have hroot := Function.update_of_ne
    (documentKey_ne_dataRootKey tid entityId documentId).symm value dht
  constructor
  · rw [hroot]
    exact h.entity
  · intro documents' hindex' documentId' hash hlink
    rw [hroot] at hindex'
    have hsame := hindex.unique hindex'
    subst hsame
    have hne : documentKey tid entityId documentId' ≠ documentKey tid entityId documentId := by
      intro hkey
      rw [documentKey_inj.mp hkey, hnone] at hlink
      cases hlink
    rw [Function.update_of_ne hne]
    exact h.linked hindex hlink

/-- The link and the key of a document change together. -/
theorem Identity.write (h : Identity S contents tid entityId dht)
    (hindex : Index contents (dht (dataRootKey tid entityId)) documents) {op : DocumentOp}
    (hroot : Index contents root (op.apply documentId hash documents))
    (hhash : op = .delete ∨ NamesItself S contents hash documentId) :
    Identity S contents tid entityId
      (Function.update (Function.update dht (documentKey tid entityId documentId) hash)
        (dataRootKey tid entityId) root) := by
  constructor
  -- the entity has the new index
  · rw [Function.update_self]
    exact .inr ⟨_, hroot⟩
  · intro documents' hindex' documentId' hash' hlink
    rw [Function.update_self] at hindex'
    have hsame := hroot.unique hindex'
    subst hsame
    rw [Function.update_of_ne (documentKey_ne_dataRootKey tid entityId documentId')]
    unfold DocumentOp.apply at hlink
    -- the document that was written, and the others, which are linked as before
    by_cases hid : documentId' = documentId
    · subst hid
      rw [Function.update_self] at hlink
      rw [Function.update_self]
      split at hlink
      case isTrue => cases hlink
      case isFalse hop =>
          cases hlink
          exact ⟨rfl, hhash.resolve_left hop⟩
    · rw [Function.update_of_ne hid] at hlink
      rw [Function.update_of_ne fun hkey => hid (documentKey_inj.mp hkey)]
      exact h.linked hindex hlink

end Writes

/-! ## Single commands -/

section Commands

variable {S : Services} {contents : String → Option Contents} (hS : S.Lawful contents)
  {tid entityId : String} {dht : String → String} {documents : String → Option String}
  {x : CommandEnv} {source channelId txid : String}

theorem stringAt_eq_some {j : Json} {key value : String} :
    j.stringAt key = some value ↔ j.get? key = some (.str value) := by
  unfold Json.stringAt
  split
  · simp_all
  · simp_all

include hS

/-- The new text has the same id, unless the body brings another one. -/
theorem parse_changedText {doc : Json} (hheld : doc.held = true) {op : DocumentOp}
    {documentId payload text : String} (hid : doc.get? "id" = some (.str documentId))
    (hpayload : op = .update → ∀ members named, S.parse payload = some (.obj members) →
      (mergeMembers [] members).lookup "id" = some named → doc.get? "id" = some named)
    (h : changedText S payload op doc = some text) :
    ∃ j, S.parse text = some j ∧ j.get? "id" = some (.str documentId) := by
  have hwell : doc.WellFormed := ⟨hheld, prints_of_changedText h⟩
  obtain ⟨members, rfl⟩ : ∃ members, doc = .obj members := by
    cases doc with
    | obj members => exact ⟨members, rfl⟩
    | null | bool b | num q | str s | arr xs => cases hid
  by_cases hupdate : op = .update
  · subst hupdate
    -- an update keeps the id where the body has none, and the same one where it has
    rw [changedText_eq hwell.prints, if_pos rfl] at h
    rcases exists_of_updateValues hS.toJsonLaws hwell h with ⟨named, rfl, hnamed⟩
    refine ⟨_, hS.parse_dump (wellFormed_merged hS.toJsonLaws hwell hnamed), ?_⟩
    rw [Json.get?, lookup_mergeMembers_eq]
    rcases hnamed with hparse | rfl
    · cases hvalue : (mergeMembers [] named).lookup "id" with
      | none => exact hid
      | some value =>
          rw [Option.some_or, ← hpayload rfl named value hparse hvalue]
          exact hid
    · exact hid
  -- a delete writes the document itself
  · rw [changedText_eq hwell.prints, if_neg hupdate] at h
    cases h
    exact ⟨_, hS.parse_dump hwell, hid⟩

/-- The document that is to change has no link: its key is put before this is noticed. -/
theorem exec_createOrDeleteDocument_missing
    (hindex : Index contents (dht (dataRootKey tid entityId)) documents) {op : DocumentOp}
    (hop : op ≠ .create) {documentId text value : String} {j : Json}
    (hparse : S.parse text = some j) (hvalue : j.get? "id" = some (.str value))
    (hlink : documents documentId = none) :
    ∃ hash, (createOrDeleteDocument S x source channelId txid tid entityId documentId text op).exec
      dht = (Function.update dht (documentKey tid entityId documentId) hash, none) := by
  obtain ⟨hash, hhash⟩ : ∃ hash, (if op = .delete then (.ret "" : Cmd String)
      else addObject S text).exec dht = (dht, some hash) := by
    split
    · exact ⟨"", rfl⟩
    · exact ⟨_, exec_addObject dht text⟩
  have hexec := exec_updateIndexes_missing hS hindex hop hlink hash hvalue tid entityId
  refine ⟨hash, ?_⟩
  simp [createOrDeleteDocument, Prog.exec_bind, hindex.ne_empty hS, hop, hhash, hparse, hexec]

/-- The text of a document with its id is written under this id, or nothing is linked. -/
theorem Identity.change (h : Identity S contents tid entityId dht) {op : DocumentOp}
    (hop : op ≠ .create) {documentId text : String} {j : Json} (hparse : S.parse text = some j)
    (hid : j.get? "id" = some (.str documentId)) :
    Identity S contents tid entityId
      ((createOrDeleteDocument S x source channelId txid tid entityId documentId text op).exec
        dht).1 := by
  rcases h.entity with hempty | ⟨documents, hindex⟩
  · rwa [exec_createOrDeleteDocument_empty hempty]
  · rw [exec_createOrDeleteDocument_silent (sentEnv x.guid) hop (hindex.ne_empty hS)]
    have hname : (if op = .create then nameDocument S (sentEnv x.guid) source channelId txid text
        else .ret text).exec dht = (dht, some text) := by
      rw [if_neg hop]
      rfl
    -- a document that is not linked stays so
    by_cases hlink : documents documentId = none
    · rcases exec_createOrDeleteDocument_missing hS hindex hop hparse hid hlink with ⟨hash, hexec⟩
      rw [hexec]
      exact h.unlinked hindex hlink hash
    · rcases exec_createOrDeleteDocument hS (delivered_sentEnv x.guid source) hindex (if_neg hop) hname
        hparse hid (.inr hlink) with ⟨hash, root', hhash, hroot, hexec⟩
      rw [hexec]
      refine h.write hindex hroot ?_
      unfold HashOf at hhash
      split at hhash
      case isTrue hdelete => exact .inl hdelete
      case isFalse => exact .inr ⟨_, _, _, hhash, hparse, hid⟩

/-- The loop over the documents that were found. -/
theorem Identity.each (h : Identity S contents tid entityId dht) {op : DocumentOp}
    (hop : op ≠ .create) {payload : String} {docs : List Json}
    (hheld : ∀ doc ∈ docs, doc.held = true)
    (hdocs : op = .update → ∀ members named, S.parse payload = some (.obj members) →
      (mergeMembers [] members).lookup "id" = some named →
        ∀ doc ∈ docs, doc.get? "id" = some named) :
    Identity S contents tid entityId
      ((eachDocument S x source channelId txid tid entityId payload op docs).exec dht).1 := by
  induction docs generalizing dht with
  | nil => exact h
  | cons doc docs ih =>
      cases hid : doc.stringAt "id" with
      -- a document without an id raises
      | none => simpa [eachDocument, hid, orRaise] using h
      | some documentId =>
          have hid' := stringAt_eq_some.mp hid
          have hrest : op = .update → ∀ members named, S.parse payload = some (.obj members) →
              (mergeMembers [] members).lookup "id" = some named →
                ∀ doc ∈ docs, doc.get? "id" = some named := by
            intro hupdate members named hparse hnamed doc' hdoc'
            exact hdocs hupdate members named hparse hnamed doc' (List.mem_cons_of_mem _ hdoc')
          rw [eachDocument, hid]
          cases htext : changedText S payload op doc with
          | none => simpa [orRaise] using h
          -- the change keeps the id, and the rest of the loop goes on from there
          | some text =>
              rcases parse_changedText hS (hheld doc List.mem_cons_self) hid' (fun hupdate members
                named hparse hnamed => hdocs hupdate members named hparse hnamed doc
                  List.mem_cons_self) htext with ⟨j, hparse, hj⟩
              have hchange : Identity S contents tid entityId ((createOrDeleteDocument S x source
                  channelId txid tid entityId documentId text op).exec dht).1 :=
                h.change hS hop hparse hj
              simp only [orRaise, Prog.ret_bind, Prog.exec_bind]
              rcases hexec : (createOrDeleteDocument S x source channelId txid tid entityId
                documentId text op).exec dht with ⟨dht', _ | _⟩
              · rw [hexec] at hchange
                exact hchange
              · rw [hexec] at hchange
                exact ih hchange (fun doc hdoc => hheld doc (List.mem_cons_of_mem _ hdoc)) hrest

/-- Updates and deletes of documents. -/
theorem Identity.updateOrDelete (h : Identity S contents tid entityId dht) {op : DocumentOp}
    (hop : op ≠ .create) {expression payload : String}
    (hids : op = .update → KeepsIds S tid entityId dht expression payload) :
    Identity S contents tid entityId
      ((updateOrDeleteDocument S x source channelId txid tid entityId expression payload op).exec
        dht).1 := by
  unfold updateOrDeleteDocument
  -- an entity without a root, and a search without an answer, are only reported
  by_cases hempty : dht (dataRootKey tid entityId) = ""
  · rcases exec_send x source channelId .exception txid "" msgDocumentRootNotFound with
      ⟨answered, hanswer⟩
    simpa [Prog.exec_bind, hempty, hanswer] using h
  · cases hfound : S.evaluate (dht (dataRootKey tid entityId)) expression with
    | none => simpa [Prog.exec_bind, hempty, searchDocument, hfound] using h
    | some found =>
        by_cases hnone : found.isEmpty = true
        · rcases exec_send x source channelId .exception txid "" msgDocumentNotFound with
            ⟨answered, hanswer⟩
          simpa [Prog.exec_bind, hempty, searchDocument, hfound, hnone, hanswer] using h
        · cases found with
          | arr docs =>
              -- the loop comes to its end, or raises on the way
              have heach : Identity S contents tid entityId ((eachDocument S x source channelId
                  txid tid entityId payload op docs).exec dht).1 := by
                refine h.each hS hop (Json.held_arr.mp (hS.held_of_evaluate hfound)) ?_
                intro hupdate members named hparse hnamed
                exact hids hupdate docs members named hfound hparse hnamed
              simp only [Prog.exec_bind, exec_dhtGet, if_neg hempty, searchDocument, hfound,
                exec_request, if_neg hnone]
              rcases hexec : (eachDocument S x source channelId txid tid entityId payload op
                docs).exec dht with ⟨dht', _ | _⟩
              · rw [hexec] at heach
                exact heach
              · rw [hexec] at heach
                rcases exec_send x source channelId .stateChange txid ""
                  (if op = .update then msgDocumentUpdate else msgDocumentDelete) with
                  ⟨answered, hanswer⟩
                dsimp only
                rw [hanswer]
                exact heach
          -- anything but an array raises
          | null | bool b | num q | str s | obj members =>
              simpa [Prog.exec_bind, hempty, searchDocument, hfound, hnone] using h

/-- A text that becomes a document names its new id. -/
theorem exec_nameDocument_cases (x : CommandEnv) (source channelId txid text : String) :
    ∃ answer, (∀ σ, (nameDocument S x source channelId txid text).exec σ = (σ, answer)) ∧
    ∀ named, answer = some named → ∀ j value, S.parse named = some j →
      j.get? "id" = some value → value = .str x.guid := by
  unfold nameDocument
  cases hnamed : (S.parse text).bind fun j => j.setMember "id" (.str x.guid) with
  | some j =>
      refine ⟨some (S.dump j), fun σ => rfl, ?_⟩
      rintro _ ⟨⟩ j' value hparse hvalue
      rw [hS.parse_dump (hS.wellFormed_named hnamed), Option.some.injEq] at hparse
      subst hparse
      rcases Option.bind_eq_some_iff.mp hnamed with ⟨j', -, hset⟩
      -- `j["id"] =` makes an object of `null`
      cases j' with
      | obj members | null =>
          cases hset
          simpa [Json.get?, eq_comm] using hvalue
      | bool b | num q | str s | arr xs => cases hset
  -- the client is told, and the text stays what it was
  | none =>
      rcases exec_send x source channelId .exception txid "" msgInvalidDocumentStructure with
        ⟨answered, hanswer⟩
      refine ⟨answered.map fun _ => text, ?_, ?_⟩
      · intro σ
        simp only [Prog.exec_bind, hanswer]
        cases answered <;> rfl
      · intro named hanswered j value hparse hvalue
        cases answered with
        | none => cases hanswered
        | some _ =>
            cases hanswered
            rw [hparse, Option.bind_some] at hnamed
            cases j with
            | obj members | null => cases hnamed
            | bool b | num q | str s | arr xs => cases hvalue

/-- A new document with an id that is not in use. -/
theorem Identity.create (h : Identity S contents tid entityId dht)
    (hnew : ∀ documents, Index contents (dht (dataRootKey tid entityId)) documents →
      documents x.guid = none) (text : String) :
    Identity S contents tid entityId
      ((createOrDeleteDocument S x source channelId txid tid entityId "" text .create).exec
        dht).1 := by
  rcases h.entity with hempty | ⟨documents, hindex⟩
  · rwa [exec_createOrDeleteDocument_empty hempty]
  · have hguid := hnew documents hindex
    rcases exec_nameDocument_cases hS x source channelId txid text with ⟨answer, hname, hnamed⟩
    cases answer with
    -- the client cannot be told that the text is no document
    | none => simpa [createOrDeleteDocument, Prog.exec_bind, hindex.ne_empty hS, hname] using h
    | some named =>
        rcases exec_addObject_text hS named with ⟨hash, hhash, hput⟩
        -- the key of the new id is written before anything is linked
        have hunlinked := h.unlinked hindex hguid hash
        rcases exec_send x source channelId .stateChange txid x.guid hash with
          ⟨_ | _, hanswer⟩
        · simpa [createOrDeleteDocument, Prog.exec_bind, hindex.ne_empty hS, hname, hput,
            hanswer] using hunlinked
        cases hparse : S.parse named with
        | none =>
            simpa [createOrDeleteDocument, Prog.exec_bind, hindex.ne_empty hS, hname, hput,
              hanswer, hparse] using hunlinked
        | some j =>
            cases hvalue : j.get? "id" with
            | none =>
                rcases hindex with ⟨bNode, cNode, rootData, bData, cData, hroot, -, -⟩
                simpa [createOrDeleteDocument, Prog.exec_bind, hS.ne_empty hroot, hname, hput,
                  hanswer, hparse, hS.edgesOf_single hroot, hS.iteration_singleton, updateIndexes,
                  hvalue] using hunlinked
            | some value =>
                -- the document names its new id, and is linked under it
                have hself := hnamed named rfl j value hparse hvalue
                subst hself
                have hknown : contents hash ≠ none := by simp [hhash]
                rcases exec_updateIndexes hS hindex (.inl rfl) (.inr hknown) hvalue tid entityId with
                  ⟨root', hroot, hexec⟩
                have hwrite := h.write hindex hroot (.inr ⟨_, _, _, hhash, hparse, hvalue⟩)
                simpa [createOrDeleteDocument, Prog.exec_bind, hindex.ne_empty hS, hname, hput,
                  hanswer, hparse, hexec] using hwrite

/-- A payload that names another id moves the member away from link and key. -/
theorem Represents.renamed (channelId txid : String)
    {sorts : (operand : String) → KeySort (field operand)} (hsearch : S.Searches sorts)
    (hsend : Delivered x source) {m : DocumentMap} {links : String → Option String}
    (h : Represents S contents tid entityId dht m links)
    {documentId expression text other : String} {document payload : Members}
    (hasks : AsksFor documentId expression) (hdocument : m.documents documentId = some document)
    (hparse : S.parse text = some (.obj payload))
    (hnamed : (mergeMembers [] payload).lookup "id" = some (.str other))
    (hne : other ≠ documentId) :
    ¬ Identity S contents tid entityId
      ((updateOrDeleteDocument S x source channelId txid tid entityId expression text
        .update).exec dht).1 := by
  rcases h.mapped hdocument with ⟨-, -, -, hwell⟩
  have hmerged : Json.WellFormed (.obj (mergeMembers document payload)) :=
    wellFormed_mergeMembers hwell (hS.wellFormed hparse)
  have hother : (mergeMembers document payload).lookup "id" = some (.str other) := by
    rw [lookup_mergeMembers_eq, hnamed, Option.some_or]
  -- the update writes the members of the payload over the old ones
  have htext : changedText S text .update (.obj document) =
      some (S.dump (.obj (mergeMembers document payload))) := by
    rw [changedText_eq hwell.prints, if_pos rfl]
    exact updateValues_of_obj (hS.parse_dump hwell) hparse
  rcases exec_known hS channelId txid hsend h hsearch (by decide) hasks hdocument htext
    (hS.parse_dump hmerged) hother with ⟨hash, root', hhash, hindex, hexec⟩
  rw [hexec]
  -- the link still has the old id
  intro hidentity
  have hindex' := hindex
  rw [← Function.update_self (dataRootKey tid entityId) root'
    (Function.update dht (documentKey tid entityId documentId) hash)] at hindex'
  have hlink : DocumentOp.update.apply documentId hash links documentId = some hash := by
    rw [DocumentOp.apply, Function.update_self]
    rfl
  rcases (hidentity.linked hindex' hlink).2 with ⟨data, links', j, hdata, hj, hid⟩
  have hhash' : contents hash = some (_, fun _ => none) := hhash
  rw [hhash', Option.some.injEq, Prod.mk.injEq] at hdata
  rw [← hdata.1, hS.parse_dump hmerged, Option.some.injEq] at hj
  subst hj
  rw [Json.get?, hother, Option.some.injEq, Json.str.injEq] at hid
  exact hne hid

end Commands

/-! ## Runs -/

section Runs

variable {S : Services} {contents : String → Option Contents} (hS : S.Lawful contents)
  {tid entityId : String} {dht dht' : String → String}

include hS

/-- Every careful event keeps the identities. -/
theorem identity_step {e : EntityEvent} (h : Identity S contents tid entityId dht)
    (hcareful : Careful S contents tid entityId dht e)
    (hstep : entityStep S tid entityId dht e = some dht') :
    Identity S contents tid entityId dht' := by
  cases e with
  | create caller text =>
      cases hstep
      rw [Caller.execute, Prog.run_fst, execute_createDocument]
      exact h.create hS hcareful _
  | update caller expression text =>
      cases hstep
      rw [Caller.execute, Prog.run_fst, execute_updateDocument]
      exact h.updateOrDelete hS (by decide) fun _ => hcareful
  | delete caller expression =>
      cases hstep
      rw [Caller.execute, Prog.run_fst, execute_deleteDocument]
      have hids : DocumentOp.delete = .update → KeepsIds S tid entityId dht expression "" := by
        intro hop
        cases hop
      exact h.updateOrDelete hS (by decide) hids
  -- the entity is as before, or has been deleted
  | elsewhere dht' =>
      cases hstep
      rcases hcareful with ⟨hroot | hroot, hkeys⟩
      · constructor
        · rw [hroot]
          exact h.entity
        · intro documents hindex documentId hash hlink
          rw [hroot] at hindex
          rw [hkeys]
          exact h.linked hindex hlink
      · constructor
        · exact .inl hroot
        · intro documents hindex
          exact absurd hroot (hindex.ne_empty hS)

/-- Whatever careful commands have been executed on a new entity, its documents keep their
identity. -/
theorem identity_kept {x : CommandEnv} {source channelId txid object : String}
    (hentity : (addChildNode S x source channelId txid tid templateTree object).exec dht =
      (dht', some ())) {es : List EntityEvent} {dht'' : String → String}
    (h : Trace (entityStep S tid x.guid) (Careful S contents tid x.guid) dht' es dht'') :
    Identity S contents tid x.guid dht'' := by
  refine h.invariant (fun _ => Identity S contents tid x.guid) ?_ ?_
  · have hnew := represents_new hS hentity
    constructor
    · exact .inr ⟨_, hnew.index⟩
    · intro documents hindex documentId hash hlink
      rw [← hnew.index.unique hindex] at hlink
      cases hlink
  · intro _ _ _ _ hidentity hcareful hstep
    exact identity_step hS hidentity hcareful hstep

end Runs

namespace Sample

/-- The bodies of the commands. -/
def decodedIds (text : String) : String :=
  if text = "e30=" then Json.write (.obj [])
  else if text = "eyJpZCI6IngifQ==" then Json.write (.obj [("id", .str "x")])
  else ""

noncomputable def identityServices : Services :=
  ObjectStore.searching decodedIds fun operand => .insertion (field operand)

theorem identityServices_lawful : identityServices.Lawful ObjectStore.contents :=
  ObjectStore.searching_lawful ..

theorem parse_of_decodedIds {text : String} {j : Json} (h : decodedIds text = Json.write j)
    (hj : j.WellFormed) :
    identityServices.parse (identityServices.base64_decode text) = some j := by
  have hparse : identityServices.parse (identityServices.base64_decode text) =
      Json.parse (decodedIds text) := rfl
  rw [hparse, h, Json.parse_write hj]

theorem parse_emptyBody :
    identityServices.parse (identityServices.base64_decode "e30=") = some (.obj []) :=
  parse_of_decodedIds (if_pos rfl) ⟨rfl, rfl⟩

theorem parse_otherId : identityServices.parse (identityServices.base64_decode "eyJpZCI6IngifQ==") =
    some (.obj [("id", .str "x")]) := by
  refine parse_of_decodedIds ?_ ⟨by decide, by decide⟩
  have hne : "eyJpZCI6IngifQ==" ≠ "e30=" := by decide
  rw [decodedIds, if_neg hne, if_pos rfl]

def caller (guid : String) (utf8 : Utf8.isUtf8 guid = true := by decide) : Caller where
  source := "0"
  channelId := "n"
  txid := "x"
  env := gossipEnv guid utf8

/-- A template, and an entity without documents for it. -/
theorem exists_entity : ∃ dht, (addChildNode identityServices (gossipEnv "entity") "0" "n" "w" "t"
    templateTree "").exec (fun _ => "") = (dht, some ()) := by
  let dht : String → String := fun _ => ""
  have hrooted : Rooted ObjectStore.contents (dht (ObjectTree.template.root "t"))
      (fun _ => none) := .inl ⟨rfl, rfl⟩
  rcases exec_addChildNode identityServices_lawful (delivered_gossip (gossipEnv "entity")
    gossip_source) "n" "w" hrooted "" with ⟨_, _, _, dht, -, -, -, hexec⟩
  exact ⟨dht, hexec⟩

/-- The execution of a command that creates a document. -/
theorem execute_create (guid : String) (utf8 : Utf8.isUtf8 guid = true) (dht : String → String) :
    (caller guid utf8).execute identityServices "t" ["2", "entity", "e30="] dht =
      ((createOrDeleteDocument identityServices (gossipEnv guid utf8) "0" "n" "x" "t" "entity" ""
        (identityServices.base64_decode "e30=") .create).exec dht).1 := by
  rw [Caller.execute, Prog.run_fst, execute_createDocument]
  rfl

end Sample

/-- A document is created, and updated with a payload that names no id. -/
theorem identity_kept_sample :
    ∃ dht dht', (addChildNode Sample.identityServices (Sample.gossipEnv "entity") "0" "n" "w" "t"
        templateTree "").exec (fun _ => "") = (dht, some ()) ∧
      Trace (entityStep Sample.identityServices "t" "entity")
        (Careful Sample.identityServices ObjectStore.contents "t" "entity") dht
        [.create (Sample.caller "d") "e30=",
          .update (Sample.caller "") (Sample.idFilter "d") "e30="] dht' ∧
      Identity Sample.identityServices ObjectStore.contents "t" "entity" dht' := by
  rcases Sample.exists_entity with ⟨dht, hentity⟩
  have hnew := represents_new Sample.identityServices_lawful hentity
  -- the entity has no document yet
  have hcreate : Careful Sample.identityServices ObjectStore.contents "t" "entity" dht
      (.create (Sample.caller "d") "e30=") := by
    intro documents hindex
    rw [← hnew.index.unique hindex]
  -- the payload has no member `id`
  have hupdate : ∀ dht', Careful Sample.identityServices ObjectStore.contents "t" "entity" dht'
      (.update (Sample.caller "") (Sample.idFilter "d") "e30=") := by
    intro dht' docs members named _ hparse hnamed
    rw [Sample.parse_emptyBody, Option.some.injEq,
      Json.obj.injEq] at hparse
    subst hparse
    cases hnamed
  have htrace : Trace (entityStep Sample.identityServices "t" "entity")
      (Careful Sample.identityServices ObjectStore.contents "t" "entity") dht
      [.create (Sample.caller "d") "e30=",
        .update (Sample.caller "") (Sample.idFilter "d") "e30="] _ :=
    .cons hcreate rfl (.single (hupdate _) rfl)
  exact ⟨dht, _, hentity, htrace, identity_kept Sample.identityServices_lawful hentity htrace⟩

/-- A document is created with the id "d", and an update then names the id "x": the link "d"
leads to a document that says it is "x". -/
theorem identity_lost :
    ∃ dht dht', (addChildNode Sample.identityServices (Sample.gossipEnv "entity") "0" "n" "w" "t"
        templateTree "").exec (fun _ => "") = (dht, some ()) ∧
      Run (entityStep Sample.identityServices "t" "entity") dht
        [.create (Sample.caller "d") "e30=",
          .update (Sample.caller "") (Sample.idFilter "d") "eyJpZCI6IngifQ=="] dht' ∧
      ¬ Identity Sample.identityServices ObjectStore.contents "t" "entity" dht' := by
  have hS := Sample.identityServices_lawful
  have hsend : ∀ env, Delivered env "0" := fun env => delivered_gossip env Sample.gossip_source
  rcases Sample.exists_entity with ⟨dht, hentity⟩
  have hnew : Represents Sample.identityServices ObjectStore.contents "t" "entity" dht .empty
      (fun _ => none) := represents_new hS hentity
  rcases exec_create hS "n" "x" (hsend (Sample.gossipEnv "d")) hnew
    Sample.parse_emptyBody with ⟨dht₁, links, hexec, hrepresents⟩
  have hcreated := Sample.execute_create "d" (by decide) dht
  rw [hexec] at hcreated
  refine ⟨dht, _, hentity, .cons trivial rfl (.single trivial rfl), ?_⟩
  rw [hcreated, Caller.execute, Prog.run_fst, execute_updateDocument]
  have hdocument : (DocumentMap.apply "d" .empty (.create [])).documents "d" =
      some [("id", .str "d")] := by
    simp [DocumentMap.apply, Json.insertMember]
  -- the update finds the document that was created
  have hasks : AsksFor "d" (Sample.idFilter "d") := asksFor_quoted (by decide)
  exact hrepresents.renamed hS "n" "x" (ObjectStore.searching_searches _ _)
    (hsend (Sample.gossipEnv "")) hasks hdocument Sample.parse_otherId rfl (by decide : "x" ≠ "d")

end DecentralizedCloud.Storage
