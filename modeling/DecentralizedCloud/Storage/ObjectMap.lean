import DecentralizedCloud.Storage.DocumentMap
import DecentralizedCloud.Storage.ObjectTree

/-!
# The functions and templates of a tenant

Seen from outside, each of the two trees of a tenant is a map from ids to JSON
objects. The invariant (`Holds`) ties the two records of an object together: an id
has a link below the root exactly when its key is not empty, and both have the
hash of a text of the mapped object. A command moves the records of one id in one
tree (`Moves`), or none.
-/

namespace DecentralizedCloud.Storage

open Schedule

/-! ## The maps -/

abbrev ObjectMap := ObjectTree → String → Option (List (String × Json))

inductive ObjectCommand where
  | add (tree : ObjectTree) (body : List (String × Json))
  /-- without a payload the text cannot be parsed -/
  | update (tree : ObjectTree) (objectId : String) (payload : Option (List (String × Json)))
  | delete (tree : ObjectTree) (objectId : String)

namespace ObjectMap

def empty : ObjectMap := fun _ _ => none

/-- What a tree has under an id is replaced. -/
def set (m : ObjectMap) (tree : ObjectTree) (objectId : String)
    (object : Option (List (String × Json))) : ObjectMap :=
  Function.update m tree (Function.update (m tree) objectId object)

/-- A new object gets the id `guid`; an id that is not there is left alone. -/
def apply (guid : String) (m : ObjectMap) : ObjectCommand → ObjectMap
  | .add tree body => m.set tree guid (some body)
  | .update tree objectId (some payload) =>
      m.set tree objectId ((m tree objectId).map fun object => mergeMembers object payload)
  | .update _ _ none => m
  | .delete tree objectId => m.set tree objectId none

theorem set_self (m : ObjectMap) (tree : ObjectTree) (objectId : String) :
    m.set tree objectId (m tree objectId) = m := by
  rw [set, Function.update_eq_self, Function.update_eq_self]

end ObjectMap

/-! ## Commands -/

/-- The words of a command on a tree. -/
def ObjectCommand.Words (S : Services) : ObjectCommand → List String → Prop
  | add tree body, words => ∃ text, words = [tree.addWord, text] ∧
      S.parse (S.base64_decode text) = some (.obj body)
  | update tree objectId payload, words => ∃ text, words = [tree.updateWord, objectId, text] ∧
      S.parse (S.base64_decode text) = payload.map .obj
  | delete tree objectId, words => words = [tree.deleteWord, objectId]

abbrev ObjectRequest (S : Services) : Type := Request (ObjectCommand.Words S)

def ObjectRequest.interpret {S : Services} (r : ObjectRequest S) (m : ObjectMap) : ObjectMap :=
  m.apply r.env.guid r.command

/-! ## What a store says -/

/-- The fetch of an object of a tree by its id. -/
def ObjectTree.fetch (S : Services) (x : CommandEnv) (source channelId txid tid objectId : String) :
    ObjectTree → Cmd Unit
  | function => fetchFunction S x source channelId txid tid objectId ""
  | template => fetchTemplate S x source channelId txid tid objectId

/-- The answer to a fetch. -/
def ObjectTree.answer (x : CommandEnv) (source channelId txid objectId data : String) :
    ObjectTree → Cmd Unit
  | function => send x source channelId .fetchFunction txid objectId data
  | template => send x source channelId .fetchTemplate txid objectId data

def ObjectTree.notFound : ObjectTree → String
  | function => msgFunctionNotFound
  | template => msgTemplateNotFound

/-- Whoever fetches the object is answered with the text. -/
def Fetches (S : Services) (tid : String) (dht : String → String) (tree : ObjectTree)
    (objectId text : String) : Prop :=
  ∀ (x : CommandEnv) (source channelId txid : String),
    (tree.fetch S x source channelId txid tid objectId).run dht =
      (tree.answer x source channelId txid objectId text).run dht

/-- The trees of the tenant and the maps agree. -/
structure TreesAgree (S : Services) (tid : String) (dht : String → String) (m : ObjectMap) :
    Prop where
  /-- the links of a root are the ids of the map, each with the hash under its key -/
  root : ∀ tree : ObjectTree, (dht (tree.root tid) = "" ∧ ∀ objectId, m tree objectId = none) ∨
    ∃ edges, S.objectLinks (dht (tree.root tid)) = some edges ∧
      ∀ objectId hash, (objectId, hash) ∈ edges ↔
        (m tree objectId).isSome ∧ hash = dht (tree.key tid objectId)
  mapped : ∀ (tree : ObjectTree) objectId object, m tree objectId = some object →
    ∃ text, S.parse text = some (.obj object) ∧
      S.objectPut text [] = some (dht (tree.key tid objectId)) ∧
      S.objectData (dht (tree.key tid objectId)) = some text ∧ Fetches S tid dht tree objectId text
  missing : ∀ (tree : ObjectTree) objectId, m tree objectId = none →
    dht (tree.key tid objectId) = "" ∧ Fetches S tid dht tree objectId tree.notFound

/-- How a store holds what the map has under an id, by the link of the root and the key of
the object. -/
def ObjectEntry (S : Services) (contents : String → Option Contents)
    (object : Option (List (String × Json))) (link : Option String) (key : String) : Prop :=
  match object with
  | some members => link = some key ∧
      ∃ text, contents key = some (text, fun _ => none) ∧ S.parse text = some (.obj members)
  | none => link = none ∧ key = ""

/-- How a store holds one tree: `links` are the links of its root. -/
structure HoldsTree (S : Services) (contents : String → Option Contents) (tid : String)
    (dht : String → String) (tree : ObjectTree) (m : String → Option (List (String × Json)))
    (links : String → Option String) : Prop where
  root : Rooted contents (dht (tree.root tid)) links
  entry : ∀ objectId, ObjectEntry S contents (m objectId) (links objectId)
    (dht (tree.key tid objectId))

def Holds (S : Services) (contents : String → Option Contents) (tid : String)
    (dht : String → String) (m : ObjectMap) : Prop :=
  ∀ tree, ∃ links, HoldsTree S contents tid dht tree (m tree) links

section Lawful

variable {S : Services} {contents : String → Option Contents} (hS : S.Lawful contents)
  {tid : String} {dht dht' : String → String} {m : ObjectMap} {tree : ObjectTree}
  {objectId : String}

theorem HoldsTree.missing {m : String → Option (List (String × Json))}
    {links : String → Option String} (h : HoldsTree S contents tid dht tree m links)
    (hobject : m objectId = none) : links objectId = none ∧ dht (tree.key tid objectId) = "" := by
  have hentry := h.entry objectId
  rwa [hobject] at hentry

theorem HoldsTree.mapped {m : String → Option (List (String × Json))}
    {links : String → Option String} (h : HoldsTree S contents tid dht tree m links)
    {object : List (String × Json)} (hobject : m objectId = some object) :
    links objectId = some (dht (tree.key tid objectId)) ∧
      ∃ text, contents (dht (tree.key tid objectId)) = some (text, fun _ => none) ∧
        S.parse text = some (.obj object) := by
  have hentry := h.entry objectId
  rwa [hobject] at hentry

/-- A store without objects of the tenant. -/
theorem holds_empty (hroot : ∀ tree : ObjectTree, dht (tree.root tid) = "")
    (hkey : ∀ (tree : ObjectTree) objectId, dht (tree.key tid objectId) = "") :
    Holds S contents tid dht .empty := by
  intro tree
  refine ⟨fun _ => none, .inl ⟨hroot tree, rfl⟩, ?_⟩
  intro objectId
  exact ⟨rfl, hkey tree objectId⟩

/-! ## One move -/

/-- The records of one id have moved, and with them the map. -/
theorem Holds.moves (h : Holds S contents tid dht m) {links : String → Option String}
    (htree : HoldsTree S contents tid dht tree (m tree) links) {value root data : String}
    (hmoves : Moves tree tid objectId value root dht dht') {link : Option String}
    (hroot : contents root = some (data, Function.update links objectId link))
    {object : Option (List (String × Json))} (hentry : ObjectEntry S contents object link value) :
    Holds S contents tid dht' (m.set tree objectId object) := by
  have hframe : ∀ (tree' : ObjectTree) id, (tree' = tree → id ≠ objectId) →
      dht' (tree'.key tid id) = dht (tree'.key tid id) := by
    intro tree' id hne
    apply hmoves.frame
    · intro hkey
      rcases ObjectTree.key_inj.mp hkey with ⟨rfl, rfl⟩
      exact hne rfl rfl
    · exact tree'.key_ne_root tree tid id
    · exact tree'.key_ne_transactionKey tid id
    · exact fun _ => tree'.key_ne_rootKey tid id _
  intro tree'
  -- the tree of the object, and then the other one, whose records are elsewhere
  by_cases hsame : tree' = tree
  · subst hsame
    refine ⟨Function.update links objectId link, .inr ⟨data, by rw [hmoves.root, hroot]⟩, ?_⟩
    intro id
    rw [ObjectMap.set, Function.update_self]
    -- the object itself
    by_cases hid : id = objectId
    · subst hid
      rwa [Function.update_self, Function.update_self, hmoves.key]
    · rw [Function.update_of_ne hid, Function.update_of_ne hid, hframe tree' id fun _ => hid]
      exact htree.entry id
  · rcases h tree' with ⟨links', hroot', hentry'⟩
    have hroots : dht' (tree'.root tid) = dht (tree'.root tid) := by
      apply hmoves.frame
      · exact (tree.key_ne_root tree' tid objectId).symm
      · intro hkey
        exact hsame (ObjectTree.root_inj.mp hkey)
      · exact rootKey_ne_transactionKey _
      · exact tree'.root_ne_dataRootKey tid tid
    refine ⟨links', by rwa [hroots], ?_⟩
    intro id
    rw [ObjectMap.set, Function.update_of_ne hsame, hframe tree' id fun heq => absurd heq hsame]
    exact hentry' id

/-! ## Single commands -/

section Step

variable (h : Holds S contents tid dht m) {x : CommandEnv} {source : String}
  (hsend : Delivered x source) (channelId txid : String)

include hS h hsend

theorem holds_add {object : String} {body : List (String × Json)}
    (hparse : S.parse object = some (.obj body)) :
    Holds S contents tid
      ((addChildNode S x source channelId txid tid tree.name object).exec dht).1
      (m.set tree x.guid (some body)) := by
  rcases h tree with ⟨links, htree⟩
  rcases exec_addChildNode hS hsend channelId txid htree.root object with
    ⟨hash, root, data, dht', hhash, hroot, hmoves, hexec⟩
  have hentry : ObjectEntry S contents (some body) (some hash) hash := ⟨rfl, object, hhash, hparse⟩
  rw [hexec]
  exact h.moves htree hmoves hroot hentry

/-- An update merges the payload into the object of the map. -/
theorem holds_update {object : String} {payload : Option (List (String × Json))}
    (hparse : S.parse object = payload.map .obj) :
    Holds S contents tid
      ((updateChildNode S x source tree.name channelId txid tid objectId object).exec dht).1
      (m.apply x.guid (.update tree objectId payload)) := by
  rcases h tree with ⟨links, htree⟩
  cases hobject : m tree objectId with
  | none =>
      -- no such object: an exception is sent, or raised
      have hsame : m.apply x.guid (.update tree objectId payload) = m := by
        cases payload with
        | none => rfl
        | some payload =>
            rw [ObjectMap.apply, hobject, Option.map_none, ← hobject, ObjectMap.set_self]
      have hstay : ((updateChildNode S x source tree.name channelId txid tid objectId
          object).exec dht).1 = dht := by
        rcases htree.root with ⟨hempty, -⟩ | ⟨data, hroot⟩
        · rw [exec_updateChildNode_empty hsend channelId txid hempty]
        · rw [exec_updateChildNode_missing hS channelId txid hroot
            (.inl (htree.missing hobject).1)]
      rwa [hsame, hstay]
  | some old =>
      rcases htree.mapped hobject with ⟨hlink, text, hstored, htext⟩
      have hne : links objectId ≠ none := by simp [hlink]
      rcases htree.root.exists_data hne with ⟨data, hroot⟩
      cases payload with
      | none =>
          have hupdated : updateValues S text object = none := updateValues_of_unparsable hparse
          rw [exec_updateChildNode_missing hS channelId txid hroot
            (.inr ⟨_, text, hlink, hstored, hupdated⟩)]
          exact h
      | some payload =>
          have hupdated := updateValues_of_obj htext hparse
          rcases exec_updateChildNode hS hsend channelId txid hroot hlink hstored hupdated with
            ⟨hash, root, data', dht', hhash, hroot', hmoves, -, hexec⟩
          have hentry : ObjectEntry S contents (some (mergeMembers old payload)) (some hash) hash :=
            ⟨rfl, _, hhash, hS.parse_dump
              (wellFormed_mergeMembers (hS.wellFormed htext) (hS.wellFormed hparse))⟩
          rw [hexec, ObjectMap.apply, hobject]
          exact h.moves htree hmoves hroot' hentry

/-- A delete takes the object out of the map. -/
theorem holds_delete :
    Holds S contents tid
      ((deleteObject S x source tree.name channelId txid tid objectId).exec dht).1
      (m.set tree objectId none) := by
  rcases h tree with ⟨links, htree⟩
  cases hobject : m tree objectId with
  | none =>
      rcases htree.missing hobject with ⟨hlink, hkey⟩
      rw [exec_deleteObject_missing hS channelId txid htree.root hlink, ← hobject,
        ObjectMap.set_self, ← hkey, Function.update_eq_self]
      exact h
  | some object =>
      rcases htree.mapped hobject with ⟨hlink, -⟩
      have hne : links objectId ≠ none := by simp [hlink]
      rcases htree.root.exists_data hne with ⟨data, hroot⟩
      rcases exec_deleteObject hS hsend channelId txid hroot hne with
        ⟨root, data', dht', hroot', hmoves, hexec⟩
      have hentry : ObjectEntry S contents none none "" := ⟨rfl, rfl⟩
      rw [hexec]
      exact h.moves htree hmoves hroot' hentry

omit hsend in
/-- Every request does to the trees what it does to the map. -/
theorem holds_step (r : ObjectRequest S) :
    Holds S contents tid (r.execute S tid dht) (ObjectRequest.interpret r m) := by
  rcases r with ⟨command, words, source, channelId, txid, env, hgossip, hwords⟩
  have hsend := delivered_gossip env hgossip
  rw [Request.execute, ObjectRequest.interpret, Prog.run_fst]
  cases command with
  | add tree body =>
      rcases hwords with ⟨text, rfl, hparse⟩
      rw [ObjectTree.execute_add]
      exact holds_add hS h hsend channelId txid hparse
  | update tree objectId payload =>
      rcases hwords with ⟨text, rfl, hparse⟩
      rw [ObjectTree.execute_update]
      exact holds_update hS h hsend channelId txid hparse
  | delete tree objectId =>
      cases hwords
      rw [ObjectTree.execute_delete]
      exact holds_delete hS h hsend channelId txid

end Step

/-! ## Fetches -/

omit hS in
theorem run_dhtGet_bind {α : Type} (key : String) (f : String → Cmd α) :
    (dhtGet key >>= f).run dht = (f (dht key)).run dht := rfl

omit hS in
theorem run_fetchObject_bind {α : Type} (hash : String) (f : String → Cmd α) :
    (fetchObject S hash >>= f).run dht = (f ((S.objectData hash).getD "")).run dht := rfl

omit hS in
/-- Both fetches read the key of the object. -/
theorem fetch_eq (x : CommandEnv) (source channelId txid : String) :
    tree.fetch S x source channelId txid tid objectId = (do
      let val ← dhtGet (tree.key tid objectId)
      if val = "" then tree.answer x source channelId txid objectId tree.notFound
      else
        let data ← fetchObject S val
        tree.answer x source channelId txid objectId data) := by
  cases tree with
  | function =>
      rw [ObjectTree.fetch, fetchFunction, if_neg (not_not_intro rfl)]
      rfl
  | template => rfl

omit hS in
theorem fetches_missing (h : dht (tree.key tid objectId) = "") :
    Fetches S tid dht tree objectId tree.notFound := by
  intro x source channelId txid
  rw [fetch_eq, run_dhtGet_bind, if_pos h]

omit hS in
theorem fetches_mapped {text : String} (h : dht (tree.key tid objectId) ≠ "")
    (hdata : S.objectData (dht (tree.key tid objectId)) = some text) :
    Fetches S tid dht tree objectId text := by
  intro x source channelId txid
  rw [fetch_eq, run_dhtGet_bind, if_neg h, run_fetchObject_bind, hdata, Option.getD_some]

/-! ## Runs -/

include hS

/-- Trees that hold the map agree with it. -/
theorem Holds.treesAgree (h : Holds S contents tid dht m) : TreesAgree S tid dht m where
  root := by
    intro tree
    rcases h tree with ⟨links, htree⟩
    rcases htree.root with ⟨hempty, rfl⟩ | ⟨data, hroot⟩
    -- a tree without a root links nothing, so the map has nothing
    · refine .inl ⟨hempty, ?_⟩
      intro objectId
      cases hobject : m tree objectId with
      | none => rfl
      | some object => cases (htree.mapped hobject).1
    · rcases hS.objectLinks hroot with ⟨edges, hedges, hmem⟩
      refine .inr ⟨edges, hedges, ?_⟩
      intro objectId hash
      rw [hmem]
      cases hobject : m tree objectId with
      | none => simp [(htree.missing hobject).1]
      | some object =>
          rw [(htree.mapped hobject).1, Option.some.injEq, eq_comm]
          simp
  mapped := by
    intro tree objectId object hobject
    rcases h tree with ⟨links, htree⟩
    rcases htree.mapped hobject with ⟨-, text, hstored, hparse⟩
    have hdata := hS.objectData hstored
    exact ⟨text, hparse, hS.objectPut_eq_some.mpr hstored, hdata,
      fetches_mapped (hS.ne_empty hstored) hdata⟩
  missing := by
    intro tree objectId hobject
    rcases h tree with ⟨links, htree⟩
    have hkey := (htree.missing hobject).2
    exact ⟨hkey, fetches_missing hkey⟩

/-- Whatever commands have been executed for a tenant that had no objects, its trees are the
maps that the commands make. -/
theorem trees_refine_maps (hroot : ∀ tree : ObjectTree, dht (tree.root tid) = "")
    (hkey : ∀ (tree : ObjectTree) objectId, dht (tree.key tid objectId) = "")
    (requests : List (ObjectRequest S)) :
    TreesAgree S tid (requests.foldl (fun dht r => r.execute S tid dht) dht)
      (requests.foldl (fun m r => ObjectRequest.interpret r m) .empty) := by
  apply Holds.treesAgree hS
  apply List.foldl_rel (r := fun dht m => Holds S contents tid dht m)
  · exact holds_empty hroot hkey
  · intro r _ dht m h
    exact holds_step hS h r

end Lawful

namespace Sample

theorem decoded_unparsable :
    searchingServices.parse (searchingServices.base64_decode "e") = none := by
  have hparse : searchingServices.parse (searchingServices.base64_decode "e") =
      Json.parse (decoded "e") := rfl
  rw [hparse]
  decide

/-- A function "d" is added and updated, once with a text that cannot be parsed. Then a
template is added, and one that is not there is deleted. -/
noncomputable def objectRequests : List (ObjectRequest searchingServices) := [
  { command := .add .function []
    words := ["3", "e30="]
    source := "0", channelId := "n", txid := "v", env := gossipEnv "d" isUtf8_d
    gossip := gossip_source
    wellFormed := ⟨_, rfl, parse_body⟩ },
  { command := .update .function "d" (some [("a", .num 1)])
    words := ["6", "d", "eyJhIjoxfQ=="]
    source := "0", channelId := "n", txid := "w", env := gossipEnv "" Utf8.isUtf8_empty
    gossip := gossip_source
    wellFormed := ⟨_, rfl, parse_payload⟩ },
  { command := .update .function "d" none
    words := ["6", "d", "e"]
    source := "0", channelId := "n", txid := "x", env := gossipEnv "" Utf8.isUtf8_empty
    gossip := gossip_source
    wellFormed := ⟨_, rfl, decoded_unparsable⟩ },
  { command := .add .template []
    words := ["1", "e30="]
    source := "0", channelId := "n", txid := "y", env := gossipEnv "e" isUtf8_e
    gossip := gossip_source
    wellFormed := ⟨_, rfl, parse_body⟩ },
  { command := .delete .template "f"
    words := ["7", "f"]
    source := "0", channelId := "n", txid := "z", env := gossipEnv "" Utf8.isUtf8_empty
    gossip := gossip_source
    wellFormed := rfl }]

end Sample

/-- Commands on both trees of a tenant. -/
theorem trees_refine_maps_sample :
    TreesAgree Sample.searchingServices "t"
      (Sample.objectRequests.foldl (fun dht r => r.execute Sample.searchingServices "t" dht)
        fun _ => "")
      (Sample.objectRequests.foldl (fun m r => ObjectRequest.interpret r m) .empty) :=
  trees_refine_maps Sample.searchingServices_lawful (fun _ => rfl) (fun _ _ => rfl)
    Sample.objectRequests

end DecentralizedCloud.Storage
