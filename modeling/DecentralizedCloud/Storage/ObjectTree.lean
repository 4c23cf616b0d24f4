import DecentralizedCloud.Storage.EntityIndex

/-!
# The trees of functions and templates

A tenant has a tree of functions and one of templates. An object of a tree is
recorded twice: under a key of its own, and as a link of the root of the tree.
The lemmas say what a command on a tree does to the two records (`Moves`) when
its answer goes out, and when it raises.
-/

namespace DecentralizedCloud.Storage

open Schedule

inductive ObjectTree where
  | function
  | template
deriving DecidableEq, Repr

def ObjectTree.name : ObjectTree → String
  | function => functionTree
  | template => templateTree

/-! ## Words -/

namespace ObjectTree

/-- The numbers of the commands on a tree. -/
def addWord : ObjectTree → String
  | function => "3"
  | template => "1"

def updateWord : ObjectTree → String
  | function => "6"
  | template => "4"

def deleteWord : ObjectTree → String
  | function => "9"
  | template => "7"

section Dispatch

variable (S : Services) (x : CommandEnv) (tree : ObjectTree)
  (source channelId txid tid objectId text : String)

theorem execute_add :
    executeStateChangeCommand S x [tree.addWord, text] source channelId txid tid =
      addChildNode S x source channelId txid tid tree.name (S.base64_decode text) := by
  have hcode : stoi "3" = some 3 ∧ Command.ofCode 3 = some .addFunction ∧
      stoi "1" = some 1 ∧ Command.ofCode 1 = some .addTemplate := by decide
  cases tree <;> simp [executeStateChangeCommand, word, addWord, name, hcode, orRaise]

theorem execute_update :
    executeStateChangeCommand S x [tree.updateWord, objectId, text] source channelId txid tid =
      updateChildNode S x source tree.name channelId txid tid objectId (S.base64_decode text) := by
  have hcode : stoi "6" = some 6 ∧ Command.ofCode 6 = some .updateFunction ∧
      stoi "4" = some 4 ∧ Command.ofCode 4 = some .updateTemplate := by decide
  cases tree <;> simp [executeStateChangeCommand, word, updateWord, name, hcode, orRaise]

theorem execute_delete :
    executeStateChangeCommand S x [tree.deleteWord, objectId] source channelId txid tid =
      deleteObject S x source tree.name channelId txid tid objectId := by
  have hcode : stoi "9" = some 9 ∧ Command.ofCode 9 = some .deleteFunction ∧
      stoi "7" = some 7 ∧ Command.ofCode 7 = some .deleteTemplate := by decide
  cases tree <;> simp [executeStateChangeCommand, word, deleteWord, name, hcode, orRaise]

end Dispatch

/-! ## Keys -/

variable (tree : ObjectTree) (tid : String)

abbrev key (objectId : String) : String := objectKey tree.name tid objectId

abbrev root : String := rootKey (treeOf tree.name tid)

variable {tree} {tid}

theorem name_cases (tree : ObjectTree) : tree.name = functionTree ∨ tree.name = templateTree := by
  cases tree
  · exact .inl rfl
  · exact .inr rfl

theorem key_ne_rootKey (tree : ObjectTree) (tid objectId name : String) :
    tree.key tid objectId ≠ rootKey name :=
  objectKey_ne_rootKey tree.name_cases tid objectId name

theorem key_ne_root (tree tree' : ObjectTree) (tid objectId : String) :
    tree.key tid objectId ≠ tree'.root tid :=
  tree.key_ne_rootKey tid objectId (treeOf tree'.name tid)

theorem key_ne_transactionKey (tree : ObjectTree) (tid objectId hash : String) :
    tree.key tid objectId ≠ transactionKey hash :=
  objectKey_ne_transactionKey tree.name_cases tid objectId hash

theorem key_inj {tree' : ObjectTree} {objectId objectId' : String} :
    tree.key tid objectId = tree'.key tid objectId' ↔ tree = tree' ∧ objectId = objectId' := by
  constructor
  · intro h
    have hlist := congrArg String.toList h
    cases tree <;> cases tree' <;>
      simp [objectKey, name, functionTree, templateTree, String.toList_append,
        String.toList_inj] at hlist ⊢ <;> exact hlist
  · rintro ⟨rfl, rfl⟩
    rfl

theorem root_inj {tree' : ObjectTree} : tree.root tid = tree'.root tid ↔ tree = tree' := by
  constructor
  · intro h
    have hlist := congrArg String.toList h
    cases tree <;> cases tree' <;>
      simp [rootKey, treeOf, name, functionTree, templateTree, String.toList_append] at hlist ⊢
  · rintro rfl
    rfl

theorem root_ne_dataRootKey (tree : ObjectTree) (tid tid' objectId : String) :
    tree.root tid ≠ dataRootKey tid' objectId := by
  intro h
  have hlist := congrArg String.toList h
  cases tree <;>
    simp [dataRootKey, rootKey, treeOf, objectKey, name, functionTree, templateTree,
      dataTree, String.toList_append] at hlist

end ObjectTree

/-! ## What moves -/

/-- A command on an object puts `value` under its key and moves the root. It may also put
keys of transactions, and the root of the documents of a template. -/
structure Moves (tree : ObjectTree) (tid objectId value root : String)
    (σ σ' : String → String) : Prop where
  key : σ' (tree.key tid objectId) = value
  root : σ' (tree.root tid) = root
  frame : ∀ key, key ≠ tree.key tid objectId → key ≠ tree.root tid →
    (∀ hash, key ≠ transactionKey hash) → (∀ id, key ≠ dataRootKey tid id) → σ' key = σ key

/-- The transaction that has made an object is recorded, if there is one. -/
def recorded (txid hash : String) (σ : String → String) : String → String :=
  if txid = "" then σ else Function.update σ (transactionKey hash) txid

theorem recorded_of_ne {txid hash key : String} (h : key ≠ transactionKey hash)
    (σ : String → String) : recorded txid hash σ key = σ key := by
  unfold recorded
  split
  · rfl
  · exact Function.update_of_ne h ..

/-- Key, transaction and root one after another. -/
theorem moves_update (tree : ObjectTree) (tid objectId value root txid hash : String)
    (σ : String → String) :
    Moves tree tid objectId value root σ
      (Function.update (recorded txid hash (Function.update σ (tree.key tid objectId) value))
        (tree.root tid) root) where
  key := by
    rw [Function.update_of_ne (tree.key_ne_root tree tid objectId),
      recorded_of_ne (tree.key_ne_transactionKey tid objectId hash), Function.update_self]
  root := Function.update_self ..
  frame := by
    intro key hkey hroot htransaction _
    rw [Function.update_of_ne hroot, recorded_of_ne (htransaction hash), Function.update_of_ne hkey]

theorem Moves.dataRoot {tree : ObjectTree} {tid objectId value root : String}
    {σ σ' : String → String} (h : Moves tree tid objectId value root σ σ') (id dataRoot : String) :
    Moves tree tid objectId value root σ (Function.update σ' (dataRootKey tid id) dataRoot) where
  key := by
    have hne : tree.key tid objectId ≠ dataRootKey tid id := tree.key_ne_rootKey tid objectId _
    rw [Function.update_of_ne hne, h.key]
  root := by
    rw [Function.update_of_ne (tree.root_ne_dataRootKey tid tid id), h.root]
  frame := by
    intro key hkey hroot htransaction hdata
    rw [Function.update_of_ne (hdata id), h.frame key hkey hroot htransaction hdata]

/-! ## The commands -/

/-- A root that is not there has no links. -/
def Rooted (contents : String → Option Contents) (root : String)
    (links : String → Option String) : Prop :=
  (root = "" ∧ links = fun _ => none) ∨ ∃ data, contents root = some (data, links)

variable {S : Services} {contents : String → Option Contents} (hS : S.Lawful contents)
  {tree : ObjectTree} {tid objectId : String} {links : String → Option String}
  {σ : String → String}

theorem Rooted.exists_data {root : String} (h : Rooted contents root links)
    (hlink : links objectId ≠ none) : ∃ data, contents root = some (data, links) := by
  rcases h with ⟨-, rfl⟩ | hroot
  · exact absurd rfl hlink
  · exact hroot

include hS

theorem Rooted.links_eq {root data : String} {links' : String → Option String}
    (h : Rooted contents root links) (hroot : contents root = some (data, links')) :
    links = links' := by
  rcases h with ⟨hempty, -⟩ | ⟨data', hroot'⟩
  · rw [hempty, hS.empty] at hroot
    cases hroot
  · rw [hroot', Option.some.injEq, Prod.mk.injEq] at hroot
    exact hroot.2

/-- The object is linked below the root, which is made where there is none. -/
theorem exec_linkToRoot {name : String} (h : Rooted contents (σ (rootKey name)) links) {hash : String}
    (hhash : contents hash ≠ none) (objectId txid : String) :
    ∃ root data, contents root = some (data, Function.update links objectId (some hash)) ∧
      (linkToRoot S name objectId hash txid).exec σ =
        (Function.update (recorded txid hash σ) (rootKey name) root, some ()) := by
  have hrecord : (if txid = "" then (pure () : Cmd Unit)
      else dhtPut (transactionKey hash) txid).exec σ = (recorded txid hash σ, some ()) := by
    unfold recorded
    split <;> rfl
  have hread : recorded txid hash σ (rootKey name) = σ (rootKey name) :=
    recorded_of_ne (rootKey_ne_transactionKey name hash) σ
  rcases h with ⟨hempty, rfl⟩ | ⟨data, hroot⟩
  · rcases hS.objects.put_single name objectId hhash with ⟨root, hput, hcontents⟩
    have hput' : S.objectPut name [(objectId, hash)] = some root := hput
    refine ⟨root, _, hcontents, ?_⟩
    simp [linkToRoot, Prog.exec_bind, hrecord, hread, hempty, hput']
  · rcases hS.objects.patch_addLink hroot objectId hhash with ⟨root, hadd, hcontents⟩
    have hadd' : S.objectPatchAddLink (σ (rootKey name)) objectId hash = some root := hadd
    refine ⟨root, data, hcontents, ?_⟩
    simp [linkToRoot, Prog.exec_bind, hrecord, hread, hS.ne_empty hroot, hadd']

/-- A link and a transaction that are there already change nothing. -/
theorem exec_linkToRoot_same {data : String} (h : contents (σ (tree.root tid)) = some (data, links))
    {hash txid : String} (hlink : links objectId = some hash) (hhash : contents hash ≠ none)
    (htransaction : txid = "" ∨ σ (transactionKey hash) = txid) :
    (linkToRoot S (treeOf tree.name tid) objectId hash txid).exec σ = (σ, some ()) := by
  have hrecord : (if txid = "" then (pure () : Cmd Unit)
      else dhtPut (transactionKey hash) txid).exec σ = (σ, some ()) := by
    split
    case isTrue => rfl
    case isFalse hne =>
        have hsame := htransaction.resolve_left hne
        rw [exec_dhtPut]
        nth_rewrite 1 [← hsame]
        rw [Function.update_eq_self]
  have hadd : S.objectPatchAddLink (σ (tree.root tid)) objectId hash = some (σ (tree.root tid)) :=
    hS.objects.addLink_self h hlink hhash
  simp [linkToRoot, Prog.exec_bind, hrecord, hS.ne_empty h, hadd]

/-- A text has a hash. -/
theorem exec_addObject_text (text : String) :
    ∃ hash, contents hash = some (text, fun _ => none) ∧
      ∀ σ, (addObject S text).exec σ = (σ, some hash) := by
  rcases hS.objects.put_nil text with ⟨hash, hput, hhash⟩
  have hput' : S.objectPut text [] = some hash := hput
  refine ⟨hash, hhash, ?_⟩
  intro σ
  rw [exec_addObject, hput', Option.getD_some]

/-- The key of an object and its link below the root are put to the same hash. -/
theorem exec_store (h : Rooted contents (σ (tree.root tid)) links) {hash : String}
    (hhash : contents hash ≠ none) (objectId txid : String) :
    ∃ root data σ', contents root = some (data, Function.update links objectId (some hash)) ∧
      Moves tree tid objectId hash root σ σ' ∧ (txid ≠ "" → σ' (transactionKey hash) = txid) ∧
      (linkToRoot S (treeOf tree.name tid) objectId hash txid).exec
        (Function.update σ (tree.key tid objectId) hash) = (σ', some ()) := by
  have hread : Function.update σ (tree.key tid objectId) hash (tree.root tid) =
      σ (tree.root tid) :=
    Function.update_of_ne (tree.key_ne_root tree tid objectId).symm ..
  rw [← hread] at h
  rcases exec_linkToRoot hS h hhash objectId txid with ⟨root, data, hroot, hexec⟩
  refine ⟨root, data, _, hroot, moves_update tree tid objectId hash root txid hash σ, ?_, hexec⟩
  intro htxid
  rw [Function.update_of_ne (rootKey_ne_transactionKey _ hash).symm, recorded, if_neg htxid,
    Function.update_self]

variable {x : CommandEnv} {source : String} (hsend : Delivered x source)
  (channelId txid : String)

include hsend

/-- An addition links the new object under the new root. -/
theorem exec_addChildNode (h : Rooted contents (σ (tree.root tid)) links) (object : String) :
    ∃ hash root data σ', contents hash = some (object, fun _ => none) ∧
      contents root = some (data, Function.update links x.guid (some hash)) ∧
      Moves tree tid x.guid hash root σ σ' ∧
      (addChildNode S x source channelId txid tid tree.name object).exec σ = (σ', some ()) := by
  rcases exec_addObject_text hS object with ⟨hash, hhash, haddObject⟩
  have hknown : contents hash ≠ none := by simp [hhash]
  rcases exec_store hS h hknown x.guid txid with ⟨root, data, σ', hroot, hmoves, -, hlink⟩
  cases tree with
  | function =>
      refine ⟨hash, root, data, σ', hhash, hroot, hmoves, ?_⟩
      have hname : ObjectTree.function.name ≠ templateTree := by decide
      simp [addChildNode, Prog.exec_bind, haddObject, hsend _ _ _ _ _ _, hname, hlink]
  | template =>
      rcases exec_addDataRoot hS tid x.guid σ' with ⟨dataRoot, -, hdata⟩
      refine ⟨hash, root, data, _, hhash, hroot, hmoves.dataRoot x.guid dataRoot, ?_⟩
      have hif : (if ObjectTree.template.name = templateTree then addDataRoot S tid x.guid
          else pure ()) = addDataRoot S tid x.guid := if_pos rfl
      simp only [addChildNode, Prog.exec_bind, haddObject, exec_dhtPut, hsend _ _ _ _ _ _, hlink,
        hif, hdata]

/-- An update of an object that the tree has; its text comes from the old one. -/
theorem exec_updateChildNode {data : String} (h : contents (σ (tree.root tid)) = some (data, links))
    {oldHash old object text : String} (hlink : links objectId = some oldHash)
    (hold : contents oldHash = some (old, fun _ => none))
    (hupdated : updateValues S old object = some text) :
    ∃ hash root data' σ', contents hash = some (text, fun _ => none) ∧
      contents root = some (data', Function.update links objectId (some hash)) ∧
      Moves tree tid objectId hash root σ σ' ∧ (txid ≠ "" → σ' (transactionKey hash) = txid) ∧
      (updateChildNode S x source tree.name channelId txid tid objectId object).exec σ =
        (σ', some ()) := by
  rcases exec_addObject_text hS text with ⟨hash, hhash, haddObject⟩
  have hknown : contents hash ≠ none := by simp [hhash]
  rcases exec_store hS (.inr ⟨data, h⟩) hknown objectId txid with
    ⟨root, data', σ', hroot, hmoves, hrecorded, hstore⟩
  refine ⟨hash, root, data', σ', hhash, hroot, hmoves, hrecorded, ?_⟩
  have hedge : (edgesOf S (σ (tree.root tid))).at? objectId = some oldHash := by
    rw [hS.at?_edgesOf h, hlink]
  simp [updateChildNode, Prog.exec_bind, hS.ne_empty h, hedge, hS.ne_empty hold,
    hS.objectData hold, hupdated, haddObject, hsend _ _ _ _ _ _, hstore]

omit hsend in
/-- Without a link, or without a text to put, an update changes nothing. -/
theorem exec_updateChildNode_missing {data : String}
    (h : contents (σ (tree.root tid)) = some (data, links)) {object : String}
    (hmissing : links objectId = none ∨ ∃ oldHash old, links objectId = some oldHash ∧
      contents oldHash = some (old, fun _ => none) ∧ updateValues S old object = none) :
    (updateChildNode S x source tree.name channelId txid tid objectId object).exec σ =
      (σ, none) := by
  have hedge : (edgesOf S (σ (tree.root tid))).at? objectId = links objectId :=
    hS.at?_edgesOf h objectId
  rcases hmissing with hlink | ⟨oldHash, old, hlink, hold, hupdated⟩
  · simp [updateChildNode, Prog.exec_bind, hS.ne_empty h, hedge, hlink]
  · simp [updateChildNode, Prog.exec_bind, hS.ne_empty h, hedge, hlink, hS.ne_empty hold,
      hS.objectData hold, hupdated]

omit hS in
/-- A tree without a root has no objects to update. -/
theorem exec_updateChildNode_empty (h : σ (tree.root tid) = "") (object : String) :
    (updateChildNode S x source tree.name channelId txid tid objectId object).exec σ =
      (σ, some ()) := by
  simp [updateChildNode, Prog.exec_bind, h, hsend _ _ _ _ _ _]

/-- A delete takes the link from the root, and empties the key. -/
theorem exec_deleteObject {data : String} (h : contents (σ (tree.root tid)) = some (data, links))
    (hlink : links objectId ≠ none) :
    ∃ root data' σ', contents root = some (data', Function.update links objectId none) ∧
      Moves tree tid objectId "" root σ σ' ∧
      (deleteObject S x source tree.name channelId txid tid objectId).exec σ = (σ', some ()) := by
  rcases hS.objects.patch_rmLink h hlink with ⟨root, hrm, hroot⟩
  have hrm' : S.objectPatchRmLink (σ (tree.root tid)) objectId = some root := hrm
  have hread : Function.update σ (tree.key tid objectId) "" (tree.root tid) =
      σ (tree.root tid) :=
    Function.update_of_ne (tree.key_ne_root tree tid objectId).symm ..
  -- the key, the root and the record of the transaction are three keys
  have hmoves : Moves tree tid objectId "" root σ (Function.update (Function.update
      (Function.update σ (tree.key tid objectId) "") (transactionKey (σ (tree.root tid))) txid)
      (tree.root tid) root) := by
    constructor
    · rw [Function.update_of_ne (tree.key_ne_root tree tid objectId),
        Function.update_of_ne (tree.key_ne_transactionKey tid objectId _), Function.update_self]
    · exact Function.update_self ..
    · intro key hkey hroot htransaction _
      rw [Function.update_of_ne hroot, Function.update_of_ne (htransaction _),
        Function.update_of_ne hkey]
  cases tree with
  | function =>
      refine ⟨root, data, _, hroot, hmoves, ?_⟩
      have hname : ObjectTree.function.name ≠ templateTree := by decide
      simp [deleteObject, unLinkToRoot, Prog.exec_bind, hsend _ _ _ _ _ _, hread, hrm', hname]
  -- the root of the data goes with a template
  | template =>
      refine ⟨root, data, _, hroot, hmoves.dataRoot objectId "", ?_⟩
      have hif : (if ObjectTree.template.name = templateTree then
          dhtPut (dataRootKey tid objectId) "" else pure ()) =
            (dhtPut (dataRootKey tid objectId) "" : Cmd Unit) := if_pos rfl
      simp only [deleteObject, unLinkToRoot, Prog.exec_bind, exec_dhtPut, exec_dhtGet,
        exec_request, hsend _ _ _ _ _ _, hread, hrm', hif]

omit hsend in
/-- A delete of an object that the tree does not have clears its key, and then raises if the
answer has not. -/
theorem exec_deleteObject_missing (h : Rooted contents (σ (tree.root tid)) links)
    (hlink : links objectId = none) :
    (deleteObject S x source tree.name channelId txid tid objectId).exec σ =
      (Function.update σ (tree.key tid objectId) "", none) := by
  have hrm : S.objectPatchRmLink (σ (tree.root tid)) objectId = none := by
    apply hS.objects.rmLink_eq_none
    intro data links' hroot
    rw [← h.links_eq hS hroot, hlink]
  have hread : Function.update σ (tree.key tid objectId) "" (tree.root tid) =
      σ (tree.root tid) :=
    Function.update_of_ne (tree.key_ne_root tree tid objectId).symm ..
  rcases exec_send x source channelId .stateChange txid objectId "deleted successfully" with
    ⟨_ | _, hanswer⟩
  · simp [deleteObject, Prog.exec_bind, hanswer]
  · simp [deleteObject, unLinkToRoot, Prog.exec_bind, hanswer, hread, hrm]

end DecentralizedCloud.Storage
