import DecentralizedCloud.Storage.ObjectStore
import DecentralizedCloud.Storage.ObjectTree

/-!
# The documents of an entity

Seen from outside, an entity is a map from ids to JSON objects. `DocumentMap` is
this map, with the ids that it has given out, and `Represents` says how a store
holds one: the collection links the ids of the map to objects with the texts of
the documents, and every key of a document has the same hash, or the empty
string once it is deleted. Each command takes a store that represents a map to
one that represents the changed map (`represents_step`), so that any sequence of
commands does (`entity_refines_map`).
-/

namespace DecentralizedCloud.Storage

open Evaluation Schedule

/-! ## The map -/

abbrev Members := List (String × Json)

inductive DocumentCommand where
  | create (body : Members)
  | update (documentId : String) (payload : Members)
  | delete (documentId : String)

structure DocumentMap where
  documents : String → Option Members
  /-- the ids that have been given out -/
  created : List String

namespace DocumentMap

def empty : DocumentMap := { documents := fun _ => none, created := [] }

/-- A new document gets the id `guid`; an id that is not there is left alone. -/
def apply (guid : String) (m : DocumentMap) : DocumentCommand → DocumentMap
  | .create body => {
      documents := Function.update m.documents guid
        (some (Json.insertMember "id" (.str guid) body))
      created := guid :: m.created }
  | .update documentId payload => { m with
      documents := Function.update m.documents documentId
        ((m.documents documentId).map fun document => mergeMembers document payload) }
  | .delete documentId => { m with documents := Function.update m.documents documentId none }

end DocumentMap

/-! ## Commands -/

/-- The words of a command on the documents of an entity. An update does not name the id. -/
def DocumentCommand.Words (S : Services) (entityId : String) :
    DocumentCommand → List String → Prop
  | create body, words => ∃ text, words = ["2", entityId, text] ∧
      S.parse (S.base64_decode text) = some (.obj body)
  | update documentId payload, words => ∃ expression text,
      words = ["5", entityId, expression, text] ∧ AsksFor documentId expression ∧
        S.parse (S.base64_decode text) = some (.obj payload) ∧ "id" ∉ payload.map (·.1)
  | delete documentId, words => ∃ expression, words = ["8", entityId, expression] ∧
      AsksFor documentId expression

abbrev DocumentRequest (S : Services) (entityId : String) : Type :=
  Request (DocumentCommand.Words S entityId)

variable {S : Services} {entityId : String}

def DocumentRequest.interpret (r : DocumentRequest S entityId) (m : DocumentMap) : DocumentMap :=
  m.apply r.env.guid r.command

/-! ## What a store says -/

/-- The object has a link. -/
def Leads (S : Services) (hash name target : String) : Prop :=
  ∃ edges, S.objectLinks hash = some edges ∧ (name, target) ∈ edges

/-- The store and the map agree. -/
structure Agrees (S : Services) (sorts : (operand : String) → KeySort (field operand))
    (tid entityId : String) (dht : String → String) (m : DocumentMap) : Prop where
  /-- the links of the collection are the ids of the map, and lead to the documents -/
  collection : ∃ bNode cNode, Leads S (dht (dataRootKey tid entityId)) "id" bNode ∧
    Leads S bNode "__" cNode ∧ ∀ documentId hash, Leads S cNode documentId hash ↔
      ∃ document, m.documents documentId = some document ∧
        S.objectPut (S.dump (.obj document)) [] = some hash ∧
        S.objectData hash = some (S.dump (.obj document))
  mapped : ∀ documentId document, m.documents documentId = some document →
    S.objectPut (S.dump (.obj document)) [] = some (dht (documentKey tid entityId documentId))
  deleted : ∀ documentId ∈ m.created, m.documents documentId = none →
    dht (documentKey tid entityId documentId) = ""
  searched : ∀ documentId expression, AsksFor documentId expression →
    Returns (fun fuel => searchBelow S sorts fuel (dht (dataRootKey tid entityId)) expression)
      (match m.documents documentId with
        | some document => .arr [.obj document]
        | none => .str "")

/-- How a store holds what the map has under an id, by the link of the collection and the
key of the document. -/
def Entry (S : Services) (contents : String → Option Contents) (documentId : String)
    (created : Prop) (document : Option Members) (link : Option String) (key : String) : Prop :=
  match document with
  | some members => link = some key ∧
      contents key = some (S.dump (.obj members), fun _ => none) ∧
        members.lookup "id" = some (.str documentId) ∧ Json.WellFormed (.obj members)
  | none => link = none ∧ (created → key = "")

/-- How a store holds the map: `links` are the links of the collection. -/
structure Represents (S : Services) (contents : String → Option Contents) (tid entityId : String)
    (dht : String → String) (m : DocumentMap) (links : String → Option String) : Prop where
  index : Index contents (dht (dataRootKey tid entityId)) links
  entry : ∀ documentId, Entry S contents documentId (documentId ∈ m.created)
    (m.documents documentId) (links documentId) (dht (documentKey tid entityId documentId))

section Lawful

variable {contents : String → Option Contents} (hS : S.Lawful contents)
  {sorts : (operand : String) → KeySort (field operand)} {tid : String} {dht : String → String}
  {m : DocumentMap} {links : String → Option String}

include hS

theorem leads_iff {hash data : String} {links : String → Option String}
    (h : contents hash = some (data, links)) (name target : String) :
    Leads S hash name target ↔ links name = some target := by
  rcases hS.objectLinks h with ⟨edges, hedges, hmem⟩
  rw [← hmem]
  constructor
  · rintro ⟨edges', hedges', hlink⟩
    rw [hedges, Option.some.injEq] at hedges'
    rwa [hedges']
  · intro hlink
    exact ⟨edges, hedges, hlink⟩

section Represents

variable (h : Represents S contents tid entityId dht m links) {documentId : String}

include h

omit hS in
theorem Represents.missing (hdocument : m.documents documentId = none) :
    links documentId = none ∧
      (documentId ∈ m.created → dht (documentKey tid entityId documentId) = "") := by
  have hentry := h.entry documentId
  rwa [hdocument] at hentry

omit hS in
theorem Represents.mapped {document : Members}
    (hdocument : m.documents documentId = some document) :
    links documentId = some (dht (documentKey tid entityId documentId)) ∧
      contents (dht (documentKey tid entityId documentId)) =
        some (S.dump (.obj document), fun _ => none) ∧
      document.lookup "id" = some (.str documentId) ∧ Json.WellFormed (.obj document) := by
  have hentry := h.entry documentId
  rwa [hdocument] at hentry

/-- A store that represents a map agrees with it. -/
theorem Represents.agrees : Agrees S sorts tid entityId dht m where
  collection := by
    rcases h.index with ⟨bNode, cNode, rootData, bData, cData, hroot, hb, hc⟩
    refine ⟨bNode, cNode, ?_, ?_, ?_⟩
    · rw [leads_iff hS hroot, Merkle.single_self]
    · rw [leads_iff hS hb, Merkle.single_self]
    -- what is linked is the text of the document
    · intro documentId hash
      rw [leads_iff hS hc]
      constructor
      · intro hlink
        cases hdocument : m.documents documentId with
        | none =>
            rw [(h.missing hdocument).1] at hlink
            cases hlink
        | some document =>
            rcases h.mapped hdocument with ⟨hlinked, hstored, -⟩
            rw [hlinked, Option.some.injEq] at hlink
            rw [hlink] at hstored
            exact ⟨document, rfl, hS.objectPut_eq_some.mpr hstored, hS.objectData hstored⟩
      · rintro ⟨document, hdocument, hput, -⟩
        rcases h.mapped hdocument with ⟨hlinked, hstored, -⟩
        rw [hlinked, hS.objects.ext hstored (hS.objectPut_eq_some.mp hput)]
  mapped := by
    intro documentId document hdocument
    exact hS.objectPut_eq_some.mpr (h.mapped hdocument).2.1
  deleted := by
    intro documentId hcreated hdocument
    exact (h.missing hdocument).2 hcreated
  -- the search for an id fetches what is linked under it
  searched := by
    intro documentId expression hasks
    refine ⟨0, ?_⟩
    intro fuel _
    dsimp only
    rw [searchBelow_eq hS h.index hasks]
    cases hdocument : m.documents documentId with
    | none => rw [(h.missing hdocument).1]
    | some document =>
        rcases h.mapped hdocument with ⟨hlinked, hstored, -, hwell⟩
        rw [hlinked]
        simp [fetchDocument, hS.objectData hstored, hS.parse_dump hwell, ofOption]

/-! ## Single commands -/

omit hS in
/-- A document is written under its id, or deleted. -/
theorem Represents.write {hash root' : String} {document : Option Members}
    (hindex : Index contents root' (Function.update links documentId (document.map fun _ => hash)))
    {created : List String} (hcreated : ∀ id ∈ created, id = documentId ∨ id ∈ m.created)
    (hentry : Entry S contents documentId (documentId ∈ created) document
      (document.map fun _ => hash) hash) :
    Represents S contents tid entityId
      (Function.update (Function.update dht (documentKey tid entityId documentId) hash)
        (dataRootKey tid entityId) root')
      { documents := Function.update m.documents documentId document, created }
      (Function.update links documentId (document.map fun _ => hash)) := by
  constructor
  · rwa [Function.update_self]
  · intro id
    dsimp only
    have hroot : documentKey tid entityId id ≠ dataRootKey tid entityId :=
      documentKey_ne_rootKey tid entityId id _
    rw [Function.update_of_ne hroot]
    -- distinct ids have distinct keys
    by_cases heq : id = documentId
    · subst heq
      rwa [Function.update_self, Function.update_self, Function.update_self]
    · rw [Function.update_of_ne heq, Function.update_of_ne heq,
        Function.update_of_ne fun hkey => heq (documentKey_inj.mp hkey)]
      have hold := h.entry id
      unfold Entry at hold ⊢
      split
      case h_1 members hdocument => rwa [hdocument] at hold
      case h_2 hdocument =>
          rw [hdocument] at hold
          refine ⟨hold.1, ?_⟩
          intro hmem
          exact hold.2 ((hcreated id hmem).resolve_left heq)

end Represents

section Step

variable {x : CommandEnv} {source : String} (channelId txid : String)
  (hsend : Delivered x source) (h : Represents S contents tid entityId dht m links)

include hsend h

/-- A new document is in the map under its new id. -/
theorem exec_create {text : String} {body : Members} (hparse : S.parse text = some (.obj body)) :
    ∃ dht' links', (createOrDeleteDocument S x source channelId txid tid entityId "" text
        .create).exec dht = (dht', some ()) ∧
      Represents S contents tid entityId dht' (m.apply x.guid (.create body)) links' := by
  have hvalue : (Json.obj (Json.insertMember "id" (.str x.guid) body)).get? "id" =
      some (.str x.guid) := by
    simp [Json.get?]
  have hid : (if DocumentOp.create = .create then x.guid.text else "") = x.guid := rfl
  have hwell : Json.WellFormed (.obj (Json.insertMember "id" (.str x.guid) body)) :=
    (hS.wellFormed hparse).insertMember (by decide) (Json.wellFormed_str x.guid.utf8)
  have hname : (if DocumentOp.create = .create then nameDocument S x source channelId txid text
      else .ret text).exec dht = (dht, some _) := exec_nameDocument hparse dht
  rcases exec_createOrDeleteDocument hS hsend h.index hid hname (hS.parse_dump hwell) hvalue
    (.inl rfl) with ⟨hash, root', hhash, hindex, hexec⟩
  have hentry : Entry S contents x.guid (x.guid.text ∈ x.guid.text :: m.created)
      (some (Json.insertMember "id" (.str x.guid) body)) (some hash) hash :=
    ⟨rfl, hhash, by simp, hwell⟩
  exact ⟨_, _, hexec, h.write hindex (fun id hid => List.mem_cons.mp hid) hentry⟩

/-- A filter that asks for an id of the map leads to one change of its document. -/
theorem exec_each {op : DocumentOp} (hop : op ≠ .create)
    {documentId documentJson text value : String}
    {document : Members} {j : Json} (hdocument : m.documents documentId = some document)
    (htext : changedText S documentJson op (.obj document) = some text)
    (hparse : S.parse text = some j) (hvalue : j.get? "id" = some (.str value)) :
    ∃ hash root', HashOf contents op text hash ∧
      Index contents root' (op.apply documentId hash links) ∧
      (eachDocument S x source channelId txid tid entityId documentJson op
        [.obj document]).exec dht =
        (Function.update (Function.update dht (documentKey tid entityId documentId) hash)
          (dataRootKey tid entityId) root', some ()) := by
  have hid : (Json.obj document).stringAt "id" = some documentId := by
    simp [Json.stringAt, Json.get?, (h.mapped hdocument).2.2.1]
  have hlink : links documentId ≠ none := by
    simp [(h.mapped hdocument).1]
  have hname : (if op = .create then nameDocument S x source channelId txid text
      else .ret text).exec dht = (dht, some text) := by
    rw [if_neg hop]
    rfl
  -- the document is there, so it has a link to change
  rcases exec_createOrDeleteDocument hS hsend h.index (if_neg hop) hname hparse hvalue
    (.inr hlink) with ⟨hash, root', hhash, hindex, hexec⟩
  refine ⟨hash, root', hhash, hindex, ?_⟩
  rw [eachDocument, hid, htext]
  simp [orRaise, Prog.exec_bind, hexec, eachDocument]

variable (hsearch : S.Searches sorts)

include hsearch

omit hsend in
/-- The search that a command makes comes to the document of the map, or to no document. -/
theorem exec_search {documentId expression : String} (hasks : AsksFor documentId expression) :
    (searchDocument S tid entityId expression).exec dht =
      (dht, some (match m.documents documentId with
        | some document => .arr [.obj document]
        | none => .str "")) := by
  have hagrees : Agrees S sorts tid entityId dht m := h.agrees hS
  have hreturns := hagrees.searched documentId expression hasks
  simp [searchDocument, Prog.exec_bind, h.index.ne_empty hS, hsearch hreturns]

/-- A document that is found by its id is changed in the index and under its key. -/
theorem exec_known {op : DocumentOp} (hop : op ≠ .create)
    {documentId expression documentJson text value : String}
    (hasks : AsksFor documentId expression)
    {document : Members} {j : Json} (hdocument : m.documents documentId = some document)
    (htext : changedText S documentJson op (.obj document) = some text)
    (hparse : S.parse text = some j) (hvalue : j.get? "id" = some (.str value)) :
    ∃ hash root', HashOf contents op text hash ∧
      Index contents root' (op.apply documentId hash links) ∧
      (updateOrDeleteDocument S x source channelId txid tid entityId expression documentJson
        op).exec dht =
        (Function.update (Function.update dht (documentKey tid entityId documentId) hash)
          (dataRootKey tid entityId) root', some ()) := by
  rcases exec_each hS channelId txid hsend h hop hdocument htext hparse hvalue with
    ⟨hash, root', hhash, hindex, hexec⟩
  refine ⟨hash, root', hhash, hindex, ?_⟩
  have hfound := exec_search hS h hsearch hasks
  rw [hdocument] at hfound
  simp [updateOrDeleteDocument, Prog.exec_bind, h.index.ne_empty hS, hfound, Json.isEmpty, hexec,
    hsend _ _ _ _ _ _]

omit hsend in
/-- Nothing is found under an id that the map does not have, and the loop over the answer,
which is a text, raises. -/
theorem exec_unknown (op : DocumentOp) {documentId expression : String}
    (hasks : AsksFor documentId expression) (hdocument : m.documents documentId = none)
    (documentJson : String) :
    (updateOrDeleteDocument S x source channelId txid tid entityId expression documentJson
      op).exec dht = (dht, none) := by
  have hfound := exec_search hS h hsearch hasks
  rw [hdocument] at hfound
  simp [updateOrDeleteDocument, Prog.exec_bind, h.index.ne_empty hS, hfound, Json.isEmpty]

/-- An update merges the payload into the document of the map. -/
theorem represents_update {documentId expression text : String} {payload : Members}
    (hasks : AsksFor documentId expression) (hparse : S.parse text = some (.obj payload))
    (hid : "id" ∉ payload.map (·.1)) :
    ∃ links', Represents S contents tid entityId
      ((updateOrDeleteDocument S x source channelId txid tid entityId expression text
        .update).exec dht).1 (m.apply x.guid (.update documentId payload)) links' := by
  cases hdocument : m.documents documentId with
  -- the command raises, and the map does not change either
  | none =>
      rw [exec_unknown hS channelId txid h hsearch .update hasks hdocument, DocumentMap.apply,
        hdocument, Option.map_none, ← hdocument, Function.update_eq_self]
      exact ⟨links, h⟩
  | some document =>
      rcases h.mapped hdocument with ⟨-, -, hdocumentId, hwell⟩
      -- the payload has no id, so the document keeps its own
      have hnamed : (mergeMembers document payload).lookup "id" = some (.str documentId) := by
        rw [lookup_mergeMembers hid]
        exact hdocumentId
      have hmerged : Json.WellFormed (.obj (mergeMembers document payload)) :=
        wellFormed_mergeMembers hwell (hS.wellFormed hparse)
      have htext : changedText S text .update (.obj document) =
          some (S.dump (.obj (mergeMembers document payload))) := by
        rw [changedText_eq hwell.prints, if_pos rfl]
        exact updateValues_of_obj (hS.parse_dump hwell) hparse
      rcases exec_known hS channelId txid hsend h hsearch (by decide) hasks hdocument htext
        (hS.parse_dump hmerged) hnamed with ⟨hash, root', hhash, hindex, hexec⟩
      have hentry : Entry S contents documentId (documentId ∈ m.created)
          (some (mergeMembers document payload)) (some hash) hash := ⟨rfl, hhash, hnamed, hmerged⟩
      rw [hexec, DocumentMap.apply, hdocument]
      exact ⟨_, h.write hindex (fun _ hmem => .inr hmem) hentry⟩

/-- A delete takes the document out of the map. -/
theorem represents_delete {documentId expression : String}
    (hasks : AsksFor documentId expression) :
    ∃ links', Represents S contents tid entityId
      ((updateOrDeleteDocument S x source channelId txid tid entityId expression ""
        .delete).exec dht).1 (m.apply x.guid (.delete documentId)) links' := by
  cases hdocument : m.documents documentId with
  | none =>
      rw [exec_unknown hS channelId txid h hsearch .delete hasks hdocument, DocumentMap.apply,
        ← hdocument, Function.update_eq_self]
      exact ⟨links, h⟩
  | some document =>
      rcases h.mapped hdocument with ⟨-, -, hdocumentId, hwell⟩
      have htext : changedText S "" .delete (.obj document) = some (S.dump (.obj document)) :=
        changedText_eq hwell.prints
      rcases exec_known hS channelId txid hsend h hsearch (by decide) hasks hdocument htext
        (hS.parse_dump hwell) hdocumentId with ⟨hash, root', hhash, hindex, hexec⟩
      have hhash' : hash = "" := hhash
      have hentry : Entry S contents documentId (documentId ∈ m.created) none none hash :=
        ⟨rfl, fun _ => hhash'⟩
      rw [hexec, DocumentMap.apply]
      exact ⟨_, h.write hindex (fun _ hmem => .inr hmem) hentry⟩

end Step

/-! ## Runs -/

theorem indexOf_new {x : CommandEnv} {source channelId txid object : String}
    {dht dht' : String → String}
    (h : (addChildNode S x source channelId txid tid templateTree object).exec dht =
      (dht', some ())) :
    IndexOf contents "collection" (dht' (dataRootKey tid x.guid)) (fun _ => none) := by
  rcases Prog.of_exec_bind h with ⟨σ₁, objectHash, -, h⟩
  rcases Prog.of_exec_bind h with ⟨σ₂, -, -, h⟩
  rcases Prog.of_exec_bind h with ⟨σ₃, -, -, h⟩
  rcases Prog.of_exec_bind h with ⟨σ₄, -, -, h⟩
  rw [if_pos rfl] at h
  rcases exec_addDataRoot hS tid x.guid σ₄ with ⟨root', hindex, hexec⟩
  rw [hexec, Prod.mk.injEq] at h
  rwa [← h.1, Function.update_self]

/-- A new entity represents the map without documents. -/
theorem represents_new {x : CommandEnv} {source channelId txid object : String}
    {dht dht' : String → String}
    (h : (addChildNode S x source channelId txid tid templateTree object).exec dht =
      (dht', some ())) :
    Represents S contents tid x.guid dht' .empty (fun _ => none) where
  index := (indexOf_new hS h).index
  entry := fun _ => ⟨rfl, nofun⟩

/-- Every command takes a store that represents a map to one that represents the changed
map. -/
theorem represents_step (hsearch : S.Searches sorts) (r : DocumentRequest S entityId)
    (h : Represents S contents tid entityId dht m links) :
    ∃ links', Represents S contents tid entityId (r.execute S tid dht)
      (DocumentRequest.interpret r m) links' := by
  rcases r with ⟨command, words, source, channelId, txid, env, hgossip, hwords⟩
  have hsend := delivered_gossip env hgossip
  rw [Request.execute, DocumentRequest.interpret, Prog.run_fst]
  cases command with
  | create body =>
      rcases hwords with ⟨text, rfl, hparse⟩
      rcases exec_create hS channelId txid hsend h hparse with ⟨dht', links', hexec, hrepresents⟩
      refine ⟨links', ?_⟩
      rwa [execute_createDocument, hexec]
  | update documentId payload =>
      rcases hwords with ⟨expression, text, rfl, hasks, hparse, hid⟩
      rw [execute_updateDocument]
      exact represents_update hS channelId txid hsend h hsearch hasks hparse hid
  | delete documentId =>
      rcases hwords with ⟨expression, rfl, hasks⟩
      rw [execute_deleteDocument]
      exact represents_delete hS channelId txid hsend h hsearch hasks

/-- Whatever commands have been executed on a new entity, its index, the keys of its
documents and its answers are those of the map that the commands make. -/
theorem entity_refines_map (hsearch : S.Searches sorts) {x : CommandEnv}
    {source channelId txid object : String} {dht dht' : String → String}
    (hentity : (addChildNode S x source channelId txid tid templateTree object).exec dht =
      (dht', some ()))
    (requests : List (DocumentRequest S x.guid)) :
    Agrees S sorts tid x.guid (requests.foldl (fun dht r => r.execute S tid dht) dht')
      (requests.foldl (fun m r => DocumentRequest.interpret r m) .empty) := by
  have hrun : ∃ links, Represents S contents tid x.guid
      (requests.foldl (fun dht r => r.execute S tid dht) dht')
      (requests.foldl (fun m r => DocumentRequest.interpret r m) .empty) links := by
    apply List.foldl_rel (r := fun dht m => ∃ links, Represents S contents tid x.guid dht m links)
    · exact ⟨_, represents_new hS hentity⟩
    · rintro r - dht m ⟨links, h⟩
      exact represents_step hS hsearch r h
  rcases hrun with ⟨links, h⟩
  exact h.agrees hS

end Lawful

namespace Sample

/-- The bodies of two commands. -/
def decoded (text : String) : String :=
  if text = "e30=" then Json.write (.obj [])
  else if text = "eyJhIjoxfQ==" then Json.write (.obj [("a", .num 1)])
  else ""

noncomputable def searchingServices : Services :=
  ObjectStore.searching decoded fun operand => .insertion (field operand)

theorem searchingServices_lawful : searchingServices.Lawful ObjectStore.contents :=
  ObjectStore.searching_lawful ..

theorem decoded_body : decoded "e30=" = Json.write (.obj []) := if_pos rfl

theorem decoded_payload : decoded "eyJhIjoxfQ==" = Json.write (.obj [("a", .num 1)]) := by
  have hne : "eyJhIjoxfQ==" ≠ "e30=" := by decide
  rw [decoded, if_neg hne, if_pos rfl]

theorem parse_of_decoded {text : String} {j : Json} (h : decoded text = Json.write j)
    (hj : j.WellFormed) :
    searchingServices.parse (searchingServices.base64_decode text) = some j := by
  have hparse : searchingServices.parse (searchingServices.base64_decode text) =
      Json.parse (decoded text) := rfl
  rw [hparse, h, Json.parse_write hj]

theorem parse_body :
    searchingServices.parse (searchingServices.base64_decode "e30=") = some (.obj []) :=
  parse_of_decoded decoded_body ⟨rfl, rfl⟩

theorem parse_payload : searchingServices.parse (searchingServices.base64_decode "eyJhIjoxfQ==") =
    some (.obj [("a", .num 1)]) :=
  parse_of_decoded decoded_payload ⟨by decide +kernel, by decide⟩

theorem gossip_source : "0" ≠ "1" := by decide

theorem isUtf8_d : Utf8.isUtf8 "d" = true := by decide

theorem isUtf8_e : Utf8.isUtf8 "e" = true := by decide

def gossipEnv (guid : String) (utf8 : Utf8.isUtf8 guid = true := by decide) : CommandEnv :=
  { guid := ⟨guid, utf8⟩, delivery := fun _ => .raised }

def idFilter (documentId : String) : String :=
  String.ofList (quoted "id" ++ '=' :: quoted documentId)

/-- A document "d" is created and gets a member, and a document that is not there is
deleted. -/
noncomputable def documentRequests : List (DocumentRequest searchingServices "entity") := [
  { command := .create []
    words := ["2", "entity", "e30="]
    source := "0", channelId := "n", txid := "x", env := gossipEnv "d" isUtf8_d
    gossip := gossip_source
    wellFormed := ⟨"e30=", rfl, parse_body⟩ },
  { command := .update "d" [("a", .num 1)]
    words := ["5", "entity", idFilter "d", "eyJhIjoxfQ=="]
    source := "0", channelId := "n", txid := "y", env := gossipEnv "" Utf8.isUtf8_empty
    gossip := gossip_source
    wellFormed := ⟨_, _, rfl, asksFor_quoted (by decide), parse_payload,
      by simp⟩ },
  { command := .delete "e"
    words := ["8", "entity", idFilter "e"]
    source := "0", channelId := "n", txid := "z", env := gossipEnv "" Utf8.isUtf8_empty
    gossip := gossip_source
    wellFormed := ⟨_, rfl, asksFor_quoted (by decide)⟩ }]

end Sample

/-- Three commands on the entity of a first template. -/
theorem entity_refines_map_sample :
    ∃ dht', (addChildNode Sample.searchingServices (Sample.gossipEnv "entity") "0" "n" "w" "t"
        templateTree "").exec (fun _ => "") = (dht', some ()) ∧
      Agrees Sample.searchingServices (fun operand => .insertion (field operand)) "t" "entity"
        (Sample.documentRequests.foldl
          (fun dht r => r.execute Sample.searchingServices "t" dht) dht')
        (Sample.documentRequests.foldl (fun m r => DocumentRequest.interpret r m) .empty) := by
  let dht : String → String := fun _ => ""
  have hrooted : Rooted ObjectStore.contents (dht (ObjectTree.template.root "t"))
      (fun _ => none) := .inl ⟨rfl, rfl⟩
  have hsend := delivered_gossip (Sample.gossipEnv "entity") Sample.gossip_source
  rcases exec_addChildNode Sample.searchingServices_lawful hsend "n" "w" hrooted "" with
    ⟨_, _, _, dht', -, -, -, hexec⟩
  exact ⟨dht', hexec, entity_refines_map Sample.searchingServices_lawful
    (ObjectStore.searching_searches _ _) hexec Sample.documentRequests⟩

end DecentralizedCloud.Storage
