import DecentralizedCloud.Common.JsonText
import DecentralizedCloud.Lib.Merkle
import DecentralizedCloud.Storage.Commands

/-!
# Commands over lawful services

What the commands rely on: the JSON library reads what it has printed (`JsonLaws`), and IPFS
answers from objects that are found under the hashes of their contents
(`Services.Lawful`). What a command makes of the DHT then follows from what each of
its steps does (`exec_send` and the lemmas before it).
-/

namespace DecentralizedCloud.Storage

open Schedule

/-! ## Lawful services -/

/-- An object of IPFS has a text, and links with names. -/
abbrev Contents := Merkle.Contents String String String

def Services.requests (S : Services) : Merkle.Requests String String String where
  put := S.objectPut
  addLink := S.objectPatchAddLink
  rmLink := S.objectPatchRmLink

structure Services.Lawful (S : Services) (contents : String → Option Contents) : Prop
    extends JsonLaws S.parse S.dump where
  /-- the search makes its answer from values of the library -/
  held_of_evaluate : ∀ {hash expression j}, S.evaluate hash expression = some j → j.held = true
  iteration : ∀ map, (S.iteration map).Perm map
  objects : Merkle.Lawful S.requests contents
  /-- the empty string is no hash -/
  empty : contents "" = none
  objectLinks : ∀ {hash data links}, contents hash = some (data, links) →
    ∃ edges, S.objectLinks hash = some edges ∧
      ∀ name target, (name, target) ∈ edges ↔ links name = some target
  objectData : ∀ {hash data links}, contents hash = some (data, links) →
    S.objectData hash = some data

/-! ## Edges -/

section Edges

/-- Inserting one edge again and again leaves one edge. -/
theorem foldl_insert_single {name hash : String} {edges : List (String × String)}
    (hne : edges ≠ []) (h : ∀ link ∈ edges, link = (name, hash)) :
    edges.foldl (fun names link => FieldValueMap.insert names link.1 link.2) [] =
      [(name, hash)] := by
  have hkeep : ∀ links : List (String × String), (∀ link ∈ links, link = (name, hash)) →
      links.foldl (fun names link => FieldValueMap.insert names link.1 link.2) [(name, hash)] =
        [(name, hash)] := by
    intro links hlinks
    induction links with
    | nil => rfl
    | cons link links ih =>
        rw [List.foldl_cons, hlinks link List.mem_cons_self]
        have hinsert : FieldValueMap.insert [(name, hash)] name hash = [(name, hash)] := by
          simp [FieldValueMap.insert, FieldValueMap.at?]
        rw [hinsert]
        exact ih fun link hlink => hlinks link (List.mem_cons_of_mem _ hlink)
  cases edges with
  | nil => exact absurd rfl hne
  | cons link edges =>
      rw [List.foldl_cons, h link List.mem_cons_self]
      exact hkeep edges fun link hlink => h link (List.mem_cons_of_mem _ hlink)

/-- Edges that are those of a function are looked up as it says. -/
theorem lookup_edges {edges : List (String × String)} {links : String → Option String}
    (h : ∀ name target, (name, target) ∈ edges ↔ links name = some target) (name : String) :
    edges.lookup name = links name := by
  cases hlookup : edges.lookup name with
  | none =>
      rw [List.lookup_eq_none_iff] at hlookup
      cases hlink : links name with
      | none => rfl
      | some target =>
          have hmem := hlookup _ ((h name target).mpr hlink)
          simp at hmem
  | some target =>
      rcases List.lookup_eq_some_iff.mp hlookup with ⟨before, behind, rfl, -⟩
      exact ((h name target).mp (by simp)).symm

end Edges

variable {S : Services} {contents : String → Option Contents}

def edgesOf (S : Services) (hash : String) : FieldValueMap :=
  ((S.objectLinks hash).getD []).foldl
    (fun names link => FieldValueMap.insert names link.1 link.2) []

namespace Services.Lawful

variable (hS : S.Lawful contents) {hash data : String} {links : String → Option String}

include hS

theorem at?_edgesOf (h : contents hash = some (data, links)) (name : String) :
    (edgesOf S hash).at? name = links name := by
  rcases hS.objectLinks h with ⟨edges, hedges, hmem⟩
  rw [edgesOf, hedges, Option.getD_some, at?_foldl_insert, lookup_edges hmem]
  exact Option.none_or

theorem edgesOf_single {name target : String}
    (h : contents hash = some (data, Merkle.single name target)) :
    edgesOf S hash = [(name, target)] := by
  rcases hS.objectLinks h with ⟨edges, hedges, hmem⟩
  rw [edgesOf, hedges, Option.getD_some]
  apply foldl_insert_single
  · have hlink : (name, target) ∈ edges := (hmem name target).mpr (Merkle.single_self ..)
    exact List.ne_nil_of_mem hlink
  · rintro ⟨name', target'⟩ hlink
    rcases Merkle.single_eq_some.mp ((hmem name' target').mp hlink) with ⟨rfl, rfl⟩
    rfl

theorem iteration_singleton (edge : String × String) : S.iteration [edge] = [edge] :=
  List.perm_singleton.mp (hS.iteration [edge])

theorem ne_empty {object : Contents} (h : contents hash = some object) : hash ≠ "" := by
  rintro rfl
  rw [hS.empty] at h
  cases h

/-- Two texts have the same hash only if they are the same. -/
theorem objectPut_eq_some : S.objectPut data [] = some hash ↔
    contents hash = some (data, fun _ => none) := by
  rcases hS.objects.put_nil data with ⟨hash', hput, hhash'⟩
  have hput' : S.objectPut data [] = some hash' := hput
  rw [hput', Option.some.injEq]
  constructor
  · rintro rfl
    exact hhash'
  · intro hhash
    exact hS.objects.ext hhash' hhash

end Services.Lawful

/-! ## What single steps do -/

section Exec

variable (σ : String → String)

@[simp] theorem exec_ret {α : Type} (a : α) : (.ret a : Cmd α).exec σ = (σ, some a) := rfl

@[simp] theorem exec_raise {α : Type} : (.raise : Cmd α).exec σ = (σ, none) := rfl

@[simp] theorem exec_dhtGet (key : String) : (dhtGet key).exec σ = (σ, some (σ key)) := rfl

@[simp] theorem exec_dhtPut (key value : String) :
    (dhtPut key value).exec σ = (Function.update σ key value, some ()) := rfl

@[simp] theorem exec_request {α : Type} (answer : Option α) :
    (request answer).exec σ = (σ, answer) := by
  cases answer <;> rfl

@[simp] theorem exec_orRaise {α : Type} (answer : Option α) :
    (orRaise answer).exec σ = (σ, answer) := by
  cases answer <;> rfl

@[simp] theorem exec_addObject (data : String) :
    (addObject S data).exec σ = (σ, some ((S.objectPut data []).getD "")) := rfl

@[simp] theorem exec_addObjectAndLink (data child link : String) :
    (addObjectAndLink S data child link).exec σ = (σ, S.objectPut data [(link, child)]) :=
  exec_request σ _

@[simp] theorem exec_fetchObject (hash : String) :
    (fetchObject S hash).exec σ = (σ, some ((S.objectData hash).getD "")) := rfl

@[simp] theorem exec_getUnorderedEdgeNamesOf (hash : String) :
    (getUnorderedEdgeNamesOf S hash).exec σ = (σ, some (edgesOf S hash)) := rfl

/-- An answer leaves the DHT alone, and whether it raises does not depend on it. -/
theorem exec_send (x : CommandEnv) (source channelId : String) (cmd : CommandType)
    (txid objectId val : String) :
    ∃ answered, ∀ σ, (send x source channelId cmd txid objectId val).exec σ = (σ, answered) := by
  unfold send
  split
  · dsimp only
    split
    · exact ⟨some (), fun σ => rfl⟩
    · exact ⟨some (), fun σ => rfl⟩
    · exact ⟨none, fun σ => rfl⟩
  · exact ⟨some (), fun σ => rfl⟩

/-- No answer to this source raises. -/
def Delivered (x : CommandEnv) (source : String) : Prop :=
  ∀ (channelId : String) (cmd : CommandType) (txid objectId val : String) (σ : String → String),
    (send x source channelId cmd txid objectId val).exec σ = (σ, some ())

theorem delivered_gossip (x : CommandEnv) {source : String} (h : source ≠ "1") :
    Delivered x source := by
  intro channelId cmd txid objectId val σ
  unfold send
  rw [if_neg h]
  rfl

theorem delivered_sent (x : CommandEnv) (h : ∀ response, x.delivery response = .sent)
    (source : String) : Delivered x source := by
  intro channelId cmd txid objectId val σ
  unfold send
  split
  · dsimp only
    rw [h]
    rfl
  · rfl

/-- An answer to a client whose connection is gone raises. -/
theorem exec_send_raised (x : CommandEnv) (h : ∀ response, x.delivery response = .raised)
    (channelId : String) (cmd : CommandType) (txid objectId val : String) (σ : String → String) :
    (send x "1" channelId cmd txid objectId val).exec σ = (σ, none) := by
  unfold send
  rw [if_pos rfl]
  dsimp only
  rw [h]
  rfl

end Exec

/-! ## Merging objects -/

/-- The members of the second object over those of the first, key by key. -/
def mergeMembers (members payload : List (String × Json)) : List (String × Json) :=
  payload.foldl (fun members kv => Json.insertMember kv.1 kv.2 members) members

theorem lookup_mergeMembers {payload : List (String × Json)} {key : String}
    (h : key ∉ payload.map (·.1)) (members : List (String × Json)) :
    (mergeMembers members payload).lookup key = members.lookup key := by
  induction payload generalizing members with
  | nil => rfl
  | cons kv payload ih =>
      rw [List.map_cons, List.mem_cons, not_or] at h
      have hmerge : mergeMembers members (kv :: payload) =
          mergeMembers (Json.insertMember kv.1 kv.2 members) payload := rfl
      rw [hmerge, ih h.2, Json.lookup_insertMember, if_neg h.1]

theorem lookup_mergeMembers_eq (payload members : List (String × Json)) (key : String) :
    (mergeMembers members payload).lookup key =
      ((mergeMembers [] payload).lookup key).or (members.lookup key) := by
  induction payload generalizing members with
  | nil => rfl
  | cons kv payload ih =>
      have hcons : ∀ members, mergeMembers members (kv :: payload) =
          mergeMembers (Json.insertMember kv.1 kv.2 members) payload := fun _ => rfl
      rw [hcons, hcons, ih, ih (Json.insertMember kv.1 kv.2 []), Option.or_assoc]
      congr 1
      rw [Json.lookup_insertMember, Json.lookup_insertMember]
      split <;> simp

/-- An object without repeated members is merged into the empty one as it is. -/
theorem lookup_mergeMembers_nil {payload : List (String × Json)}
    (h : payload.Pairwise (·.1 < ·.1)) (key : String) :
    (mergeMembers [] payload).lookup key = payload.lookup key := by
  induction payload with
  | nil => rfl
  | cons kv payload ih =>
      rcases List.pairwise_cons.mp h with ⟨hfirst, hrest⟩
      have hcons : mergeMembers [] (kv :: payload) = mergeMembers [(kv.1, kv.2)] payload := rfl
      rw [hcons, lookup_mergeMembers_eq, ih hrest, List.lookup_cons, List.lookup_cons]
      by_cases hkey : key = kv.1
      · have hnone : payload.lookup kv.1 = none := by
          rw [List.lookup_eq_none_iff]
          intro member hmember
          exact bne_iff_ne.mpr (hfirst member hmember).ne
        simp [hkey, hnone]
      · simp [beq_false_of_ne hkey]

theorem wellFormed_mergeMembers {members payload : List (String × Json)}
    (h : Json.WellFormed (.obj members)) (hpayload : Json.WellFormed (.obj payload)) :
    Json.WellFormed (.obj (mergeMembers members payload)) := by
  have hmembers := (Json.wellFormed_obj.mp hpayload).2
  clear hpayload
  induction payload generalizing members with
  | nil => exact h
  | cons kv payload ih =>
      rcases List.forall_mem_cons.mp hmembers with ⟨⟨hkey, hvalue⟩, hrest⟩
      exact ih (h.insertMember hkey hvalue) hrest

theorem updateValues_of_obj {oldObject newObject : String} {members payload : List (String × Json)}
    (hold : S.parse oldObject = some (.obj members))
    (hnew : S.parse newObject = some (.obj payload)) :
    updateValues S oldObject newObject = some (S.dump (.obj (mergeMembers members payload))) := by
  have hset : ∀ (payload members : List (String × Json)),
      payload.foldlM (fun j kv => j.setMember kv.1 kv.2) (Json.obj members) =
        some (.obj (mergeMembers members payload)) := by
    intro payload
    induction payload with
    | nil => exact fun _ => rfl
    | cons kv payload ih =>
        intro members
        exact ih (Json.insertMember kv.1 kv.2 members)
  simp [updateValues, hold, hnew, hset]

theorem updateValues_of_unparsable {oldObject newObject : String} (h : S.parse newObject = none) :
    updateValues S oldObject newObject = none := by
  unfold updateValues
  cases S.parse oldObject with
  | none => rfl
  | some j => simp [h]

section Updates

variable (hS : JsonLaws S.parse S.dump)

include hS

/-- What an update makes of a document, unless it raises: the members of a body that is an object
are set, and other bodies set none. -/
theorem exists_of_updateValues {members : List (String × Json)} {payload text : String}
    (hwell : Json.WellFormed (.obj members))
    (h : updateValues S (S.dump (.obj members)) payload = some text) :
    ∃ named, text = S.dump (.obj (mergeMembers members named)) ∧
      (S.parse payload = some (.obj named) ∨ named = []) := by
  have hold := hS.parse_dump hwell
  cases hparse : S.parse payload with
  | none =>
      rw [updateValues_of_unparsable hparse] at h
      cases h
  | some j =>
      cases j with
      | obj named =>
          rw [updateValues_of_obj hold hparse, Option.some.injEq] at h
          exact ⟨named, h.symm, .inl rfl⟩
      -- `null` and the empty array have no members to set
      | null =>
          have hsame : some (S.dump (.obj members)) = some text := by
            simpa [updateValues, hparse, hold] using h
          exact ⟨[], (Option.some.inj hsame).symm, .inr rfl⟩
      | arr xs =>
          cases xs with
          | nil =>
              have hsame : some (S.dump (.obj members)) = some text := by
                simpa [updateValues, hparse, hold] using h
              exact ⟨[], (Option.some.inj hsame).symm, .inr rfl⟩
          | cons x xs => simp [updateValues, hparse] at h
      -- the members of other values cannot be read
      | bool b | num q | str s => simp [updateValues, hparse] at h

theorem wellFormed_merged {members named : List (String × Json)} {payload : String}
    (hwell : Json.WellFormed (.obj members))
    (h : S.parse payload = some (.obj named) ∨ named = []) :
    Json.WellFormed (.obj (mergeMembers members named)) := by
  rcases h with hparse | rfl
  · exact wellFormed_mergeMembers hwell (hS.wellFormed hparse)
  · exact hwell

end Updates

section Changed

variable {doc : Json} {payload text : String} {op : DocumentOp}

/-- What an update makes of a document that can be printed, and what else becomes of it. -/
theorem changedText_eq (h : doc.prints = true) : changedText S payload op doc =
    if op = .update then updateValues S (S.dump doc) payload else some (S.dump doc) := by
  simp [changedText, Services.dumped, h]

/-- A document is printed before it is changed. -/
theorem prints_of_changedText (h : changedText S payload op doc = some text) :
    doc.prints = true := by
  rcases Option.bind_eq_some_iff.mp h with ⟨old, hold, -⟩
  exact (Option.ite_none_right_eq_some.mp hold).1

end Changed

/-- A new document is well-formed: its body has been parsed, and the id is one of the code. -/
theorem Services.Lawful.wellFormed_named (hS : S.Lawful contents) {text : String} {guid : Guid}
    {j : Json} (h : ((S.parse text).bind fun j => j.setMember "id" (.str guid)) = some j) :
    j.WellFormed := by
  rcases Option.bind_eq_some_iff.mp h with ⟨body, hparse, hset⟩
  exact (hS.wellFormed hparse).setMember (by decide) (Json.wellFormed_str guid.utf8) hset

/-! ## Keys -/

theorem rootKey_ne_transactionKey (tree hash : String) : rootKey tree ≠ transactionKey hash := by
  intro h
  have hlist := congrArg String.toList h
  simp [rootKey, transactionKey, transactionTree, String.toList_append] at hlist

theorem documentKey_ne_rootKey (tid entityId documentId tree : String) :
    documentKey tid entityId documentId ≠ rootKey tree := by
  intro h
  have hlist := congrArg String.toList h
  simp [documentKey, rootKey, dataTree, String.toList_append] at hlist

theorem documentKey_ne_transactionKey (tid entityId documentId hash : String) :
    documentKey tid entityId documentId ≠ transactionKey hash := by
  intro h
  have hlist := congrArg String.toList h
  simp [documentKey, transactionKey, transactionTree, dataTree, String.toList_append] at hlist

theorem objectKey_ne_rootKey {tree : String} (htree : tree = functionTree ∨ tree = templateTree)
    (tid objectId tree' : String) : objectKey tree tid objectId ≠ rootKey tree' := by
  intro h
  have hlist := congrArg String.toList h
  rcases htree with rfl | rfl <;>
    simp [objectKey, rootKey, functionTree, templateTree, String.toList_append] at hlist

theorem objectKey_ne_documentKey {tree : String} (htree : tree = functionTree ∨ tree = templateTree)
    (tid objectId tid' entityId documentId : String) :
    objectKey tree tid objectId ≠ documentKey tid' entityId documentId := by
  intro h
  have hlist := congrArg String.toList h
  rcases htree with rfl | rfl <;>
    simp [objectKey, documentKey, functionTree, templateTree, dataTree,
      String.toList_append] at hlist

theorem objectKey_ne_transactionKey {tree : String}
    (htree : tree = functionTree ∨ tree = templateTree) (tid objectId hash : String) :
    objectKey tree tid objectId ≠ transactionKey hash := by
  intro h
  have hlist := congrArg String.toList h
  rcases htree with rfl | rfl <;>
    simp [objectKey, transactionKey, transactionTree, functionTree, templateTree,
      String.toList_append] at hlist

theorem documentKey_inj {tid entityId documentId documentId' : String} :
    documentKey tid entityId documentId = documentKey tid entityId documentId' ↔
      documentId = documentId' := by
  constructor
  · intro h
    have hlist := congrArg String.toList h
    simpa [documentKey, String.toList_append, String.toList_inj] using hlist
  · rintro rfl
    rfl

/-! ## Requests -/

/-- A command that another node has passed on; `Words` says which words a command has. -/
structure Request {α : Type} (Words : α → List String → Prop) where
  command : α
  words : List String
  source : String
  channelId : String
  txid : String
  env : CommandEnv
  gossip : source ≠ "1"
  wellFormed : Words command words

/-- The store after the command. -/
def Request.execute {α : Type} {Words : α → List String → Prop} (S : Services) (tid : String)
    (r : Request Words) (dht : String → String) : String → String :=
  ((executeStateChangeCommand S r.env r.words r.source r.channelId r.txid tid).run dht).1

end DecentralizedCloud.Storage
