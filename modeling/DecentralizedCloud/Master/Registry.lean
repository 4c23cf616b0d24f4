import DecentralizedCloud.Common.JsonText
import DecentralizedCloud.Common.Receiving
import DecentralizedCloud.Lib.Trace
import DecentralizedCloud.Master.State
import Mathlib.Data.List.GetD
import Mathlib.Data.List.Nodup

/-!
# The registries of a node

A node keeps the other nodes in three maps, and for verifiers and storage nodes
lists of keys beside them: to pick one, it draws an index below the size of the map
and reads the list there. Nodes register with a connection request, and a master
that has just joined gets the maps of others (`syncNodes`).

A map ignores a node that it has already, the list of keys does not. So map and
list go together exactly as long as no verifier or storage node is registered a
second time (`registries_consistent_iff`); after that some nodes may be out of
reach for the draw, and two places of the list may hold one node.
-/

namespace DecentralizedCloud

open Machine Utf8

/-! ## Nodes -/

structure BlockChainNode where
  publicKey : String
  uri : String
  type : NodeType
deriving DecidableEq, Repr

variable (J : JsonLibrary)

def BlockChainNode.toJSONString (node : BlockChainNode) : String :=
  J.dump (.obj
    [("k", .str node.publicKey), ("t", .num node.type.code.toInt), ("u", .str node.uri)])

/-- The node that the text of a JSON value describes; `none` when a read raises. -/
def BlockChainNode.ofText (text : String) : Option BlockChainNode := do
  let j ← J.parse text
  let type ← j.charAt "t"
  let publicKey ← j.stringAt "k"
  let uri ← j.stringAt "u"
  return { publicKey, uri, type := .ofCode type }

/-- `NodesMap`: nodes by their keys. -/
structure NodesMap where
  nodes : List (String × BlockChainNode)
  nodup : (nodes.map (·.1)).Nodup

namespace NodesMap

def empty : NodesMap := { nodes := [], nodup := List.nodup_nil }

def keys (m : NodesMap) : List String := m.nodes.map (·.1)

def size (m : NodesMap) : Nat := m.nodes.length

/-- All keys and addresses can be printed. -/
def prints (m : NodesMap) : Bool :=
  m.nodes.all fun x => isUtf8 x.1 && isUtf8 x.2.publicKey && isUtf8 x.2.uri

/-- `insert`: a node that is already there stays. -/
def insert (m : NodesMap) (key : String) (node : BlockChainNode) : NodesMap :=
  if h : key ∈ m.keys then m
  else
    { nodes := m.nodes ++ [(key, node)]
      nodup := by
        rw [List.map_append, List.map_singleton, ← List.concat_eq_append]
        exact m.nodup.concat h }

theorem of_prints {m : NodesMap} (h : m.prints = true) {x : String × BlockChainNode}
    (hx : x ∈ m.nodes) :
    isUtf8 x.1 = true ∧ isUtf8 x.2.publicKey = true ∧ isUtf8 x.2.uri = true := by
  have hprints := List.all_eq_true.mp h x hx
  rwa [Bool.and_eq_true, Bool.and_eq_true, and_assoc] at hprints

@[simp] theorem mem_keys_insert {m : NodesMap} {key key' : String} {node : BlockChainNode} :
    key' ∈ (m.insert key node).keys ↔ key' ∈ m.keys ∨ key' = key := by
  unfold insert
  split
  case isTrue h =>
      refine ⟨.inl, ?_⟩
      rintro (h' | rfl)
      · exact h'
      · exact h
  case isFalse => simp [keys]

end NodesMap

/-- A map and the list of keys beside it: `verifierNodes` and `verifierKeys`, or
`storageNodes` and `storageKeys`. -/
structure Listed where
  nodes : NodesMap
  keys : List String

/-- A node is inserted into the map, and its key is pushed to the list. -/
def Listed.register (l : Listed) (key : String) (node : BlockChainNode) : Listed where
  nodes := l.nodes.insert key node
  -- the map ignores a key that it has, the list does not
  keys := l.keys ++ [key]

/-! ## Registries -/

structure Registry where
  masterNodes : NodesMap
  verifiers : Listed
  storage : Listed

namespace Registry

/-- A node that has just started. -/
def empty : Registry where
  masterNodes := .empty
  verifiers := { nodes := .empty, keys := [] }
  storage := { nodes := .empty, keys := [] }

/-- What the selecting functions see. -/
def view (r : Registry) : NodeRegistry where
  numberOfVerifiers := r.verifiers.nodes.size
  verifierKeys := r.verifiers.keys
  numberOfStorageNodes := r.storage.nodes.size
  storageKeys := r.storage.keys

/-- The nodes of a map as a JSON value: each one as a text; no node makes `null`. -/
def nodesJson (m : NodesMap) : Json :=
  match m.nodes with
  | [] => .null
  | nodes => .obj (nodes.foldl
      (fun members x => Json.insertMember x.1 (.str (x.2.toJSONString J)) members) [])

/-- The data that a new master gets; `none` when a print raises. -/
def buildSyncNodesInput (r : Registry) : Option String :=
  if r.masterNodes.prints && r.verifiers.nodes.prints && r.storage.nodes.prints then
    some (J.dump (.obj
      [("m", .str (J.dump (nodesJson J r.masterNodes))),
        ("s", .str (J.dump (nodesJson J r.storage.nodes))),
        ("v", .str (J.dump (nodesJson J r.verifiers.nodes)))]))
  else none

/-- `addNode`: the registry, and what is gossiped to a new master. -/
def addNode (key uri : String) (type : NodeType) (r : Registry) : Registry × Option String :=
  let node : BlockChainNode := { publicKey := key, uri, type }
  match type with
  | .masterNode =>
      let r := { r with masterNodes := r.masterNodes.insert key node }
      (r, buildSyncNodesInput J r)
  | .verifierNode => ({ r with verifiers := r.verifiers.register key node }, none)
  | .storageNode => ({ r with storage := r.storage.register key node }, none)
  | .unnamed _ => (r, none)

/-- The node that an entry of the received maps describes. -/
def received (value : Json) : Option BlockChainNode :=
  match value with
  | .str text => BlockChainNode.ofText J text
  | .null | .bool _ | .num _ | .arr _ | .obj _ => none

def syncMaster (item : String × Json) : Assignment Registry := fun r =>
  (received J item.2).map fun node =>
    { r with masterNodes := r.masterNodes.insert item.1 node }

def syncVerifier (item : String × Json) : Assignment Registry := fun r =>
  (received J item.2).map fun node => { r with verifiers := r.verifiers.register item.1 node }

def syncStorage (item : String × Json) : Assignment Registry := fun r =>
  (received J item.2).map fun node => { r with storage := r.storage.register item.1 node }

/-- The three maps in the data of a `syncNodes` message. -/
def syncData (data : String) : Option (Json × Json × Json) := do
  let j ← J.parse data
  let m ← j.stringAt "m"
  let v ← j.stringAt "v"
  let s ← j.stringAt "s"
  return (← J.parse m, ← J.parse v, ← J.parse s)

/-- `syncNodes`: an entry that cannot be read ends it, and what was registered before stays. -/
def syncNodes (data : String) (r : Registry) : Registry :=
  match syncData J data with
  | none => r
  | some (mj, vj, sj) =>
      (assignAll (mj.items.map (syncMaster J) ++ vj.items.map (syncVerifier J) ++
        sj.items.map (syncStorage J)) r).1

end Registry

/-! ## Maps and lists -/

namespace Listed

/-- The list has the keys of the map, each once. -/
def Consistent (l : Listed) : Prop := l.keys.Nodup ∧ ∀ key, key ∈ l.keys ↔ key ∈ l.nodes.keys

/-- The list has the keys of the map, whether once or more often. -/
def Linked (l : Listed) : Prop := ∀ key, key ∈ l.keys ↔ key ∈ l.nodes.keys

/-- Some nodes are registered one after another. -/
def registerAll (l : Listed) (items : List (String × BlockChainNode)) : Listed :=
  items.foldl (fun l item => l.register item.1 item.2) l

variable {l : Listed} {items : List (String × BlockChainNode)}

@[simp] theorem keys_registerAll : (l.registerAll items).keys = l.keys ++ items.map (·.1) := by
  induction items generalizing l with
  | nil => simp [registerAll]
  | cons item items ih =>
      show ((l.register item.1 item.2).registerAll items).keys = _
      rw [ih]
      simp [register]

@[simp] theorem mem_nodes_registerAll {key : String} :
    key ∈ (l.registerAll items).nodes.keys ↔ key ∈ l.nodes.keys ∨ key ∈ items.map (·.1) := by
  induction items generalizing l with
  | nil => simp [registerAll]
  | cons item items ih =>
      show key ∈ ((l.register item.1 item.2).registerAll items).nodes.keys ↔ _
      rw [ih, register, NodesMap.mem_keys_insert, List.map_cons, List.mem_cons, or_assoc]

theorem Linked.registerAll (h : Linked l) : Linked (l.registerAll items) := by
  intro key
  rw [keys_registerAll, mem_nodes_registerAll, List.mem_append, h key]

theorem Linked.register (h : Linked l) {key : String} {node : BlockChainNode} :
    Linked (l.register key node) := by
  have hall : Linked (l.registerAll [(key, node)]) := h.registerAll
  exact hall

/-- Map and list stay consistent if and only if all nodes are new and different. -/
theorem consistent_registerAll_iff (h : Linked l) :
    Consistent (l.registerAll items) ↔
      Consistent l ∧ (items.map (·.1)).Nodup ∧ ∀ key ∈ items.map (·.1), key ∉ l.nodes.keys := by
  have hlinked : Linked (l.registerAll items) := h.registerAll
  unfold Consistent
  rw [keys_registerAll, List.nodup_append']
  constructor
  · rintro ⟨⟨hkeys, hitems, hdisjoint⟩, -⟩
    refine ⟨⟨hkeys, h⟩, hitems, ?_⟩
    intro key hkey hmem
    exact hdisjoint ((h key).mpr hmem) hkey
  · rintro ⟨⟨hkeys, -⟩, hitems, hnew⟩
    refine ⟨⟨hkeys, hitems, ?_⟩, ?_⟩
    · intro key hmem hkey
      exact hnew key hkey ((h key).mp hmem)
    · rw [← keys_registerAll]
      exact hlinked

end Listed

/-! ## What a sync registers -/

namespace Registry

variable {J : JsonLibrary} {r other : Registry} {m : NodesMap}

theorem wellFormed_node {node : BlockChainNode} (hkey : isUtf8 node.publicKey = true)
    (huri : isUtf8 node.uri = true) :
    Json.WellFormed (.obj
      [("k", .str node.publicKey), ("t", .num node.type.code.toInt), ("u", .str node.uri)]) := by
  refine Json.wellFormed_obj.mpr ⟨?_, ?_⟩
  · simp only [List.pairwise_cons, List.forall_mem_cons, List.not_mem_nil, false_imp_iff,
      implies_true, List.Pairwise.nil, and_true]
    decide
  · simp only [List.forall_mem_cons, List.not_mem_nil, false_imp_iff, implies_true, and_true]
    exact ⟨⟨by decide, Json.wellFormed_str hkey⟩, ⟨by decide, Json.wellFormed_num_toInt _⟩,
      by decide, Json.wellFormed_str huri⟩

/-- A node is read back from its text. -/
theorem received_toJSONString {node : BlockChainNode} (hkey : isUtf8 node.publicKey = true)
    (huri : isUtf8 node.uri = true) :
    (received J (.str (node.toJSONString J))).isSome = true := by
  unfold received BlockChainNode.ofText BlockChainNode.toJSONString
  simp [J.laws.parse_dump (wellFormed_node hkey huri), Json.charAt, Json.stringAt, Json.get?,
    List.lookup_cons]

/-- The text of a map has its nodes, in some order. -/
theorem perm_items_nodesJson (m : NodesMap) :
    (nodesJson J m).items.Perm (m.nodes.map fun x => (x.1, .str (x.2.toJSONString J))) := by
  have hfold : ∀ (nodes : List (String × BlockChainNode)) (members : List (String × Json)),
      (nodes.map (·.1)).Nodup → (∀ x ∈ nodes, x.1 ∉ members.map (·.1)) →
      (nodes.foldl (fun members x => Json.insertMember x.1 (.str (x.2.toJSONString J)) members)
          members).Perm
        (nodes.map (fun x => (x.1, .str (x.2.toJSONString J))) ++ members) := by
    intro nodes
    -- the members are put to their places one by one, under new keys
    induction nodes with
    | nil =>
        intro members _ _
        exact .refl _
    | cons x nodes ih =>
        intro members hnodup hnew
        rw [List.map_cons, List.nodup_cons] at hnodup
        have hperm := Json.perm_insertMember (hnew x List.mem_cons_self)
          (.str (x.2.toJSONString J))
        rw [List.foldl_cons]
        refine (ih _ hnodup.2 ?_).trans ?_
        · intro y hy hmem
          have hmem' := (hperm.map (·.1)).mem_iff.mp hmem
          rcases List.mem_cons.mp hmem' with heq | hold
          · exact hnodup.1 (List.mem_map.mpr ⟨y, hy, heq⟩)
          · exact hnew y (List.mem_cons_of_mem x hy) hold
        · refine (hperm.append_left _).trans ?_
          rw [List.map_cons, List.cons_append]
          exact List.perm_middle
  have hnodes := hfold m.nodes [] m.nodup (by simp)
  rw [List.append_nil] at hnodes
  unfold nodesJson
  split
  -- the value of an empty map is `null`
  · rename_i hnil
    rw [hnil]
    exact .refl _
  · exact hnodes

theorem received_of_mem (J : JsonLibrary) {m : NodesMap} (hm : m.prints = true)
    {item : String × Json} (h : item ∈ (nodesJson J m).items) :
    (received J item.2).isSome = true := by
  rcases List.mem_map.mp ((perm_items_nodesJson m).mem_iff.mp h) with ⟨x, hx, rfl⟩
  rcases NodesMap.of_prints hm hx with ⟨-, hkey, huri⟩
  exact received_toJSONString hkey huri

/-- The list of the nodes is JSON that the library can hold. -/
theorem wellFormed_nodesJson (J : JsonLibrary) {m : NodesMap} (hm : m.prints = true) :
    (nodesJson J m).WellFormed := by
  have hfold : ∀ (nodes : List (String × BlockChainNode)) (members : List (String × Json)),
      (∀ x ∈ nodes, x ∈ m.nodes) → Json.WellFormed (.obj members) →
        Json.WellFormed (.obj (nodes.foldl (fun members x =>
          Json.insertMember x.1 (.str (x.2.toJSONString J)) members) members)) := by
    intro nodes
    induction nodes with
    | nil => exact fun _ _ hmembers => hmembers
    | cons x nodes ih =>
        intro members hnodes hmembers
        rcases NodesMap.of_prints hm (hnodes x List.mem_cons_self) with ⟨hname, hkey, huri⟩
        have htext := J.laws.isUtf8_dump (wellFormed_node hkey huri)
        exact ih _ (fun y hy => hnodes y (List.mem_cons_of_mem x hy))
          (hmembers.insertMember hname (Json.wellFormed_str htext))
  unfold nodesJson
  split
  · exact Json.wellFormed_null
  · exact hfold m.nodes [] (fun _ hx => hx) ⟨rfl, rfl⟩

/-- The keys that a map is sent with. -/
theorem perm_keys_nodesJson (m : NodesMap) :
    ((nodesJson J m).items.map (·.1)).Perm m.keys := by
  have hperm := (perm_items_nodesJson (J := J) m).map (·.1)
  rw [List.map_map] at hperm
  exact hperm

/-- What is sent has been printed, and is read back. -/
theorem syncData_buildSyncNodesInput {other : Registry} {data : String}
    (h : buildSyncNodesInput J other = some data) :
    (other.masterNodes.prints = true ∧ other.verifiers.nodes.prints = true ∧
      other.storage.nodes.prints = true) ∧
    syncData J data = some (nodesJson J other.masterNodes,
      nodesJson J other.verifiers.nodes, nodesJson J other.storage.nodes) := by
  simp only [buildSyncNodesInput, Option.ite_none_right_eq_some, Bool.and_eq_true,
    Option.some.injEq] at h
  rcases h with ⟨⟨⟨hm, hv⟩, hs⟩, rfl⟩
  have hmaster := wellFormed_nodesJson J hm
  have hverifier := wellFormed_nodesJson J hv
  have hstorage := wellFormed_nodesJson J hs
  -- the three texts make a value that can be printed itself
  have hall : Json.WellFormed (.obj
      [("m", .str (J.dump (nodesJson J other.masterNodes))),
        ("s", .str (J.dump (nodesJson J other.storage.nodes))),
        ("v", .str (J.dump (nodesJson J other.verifiers.nodes)))]) := by
    refine Json.wellFormed_obj.mpr ⟨?_, ?_⟩
    · simp only [List.pairwise_cons, List.forall_mem_cons, List.not_mem_nil, false_imp_iff,
        implies_true, List.Pairwise.nil, and_true]
      decide
    · simp only [List.forall_mem_cons, List.not_mem_nil, false_imp_iff, implies_true, and_true]
      exact ⟨⟨by decide, Json.wellFormed_str (J.laws.isUtf8_dump hmaster)⟩,
        ⟨by decide, Json.wellFormed_str (J.laws.isUtf8_dump hstorage)⟩,
        by decide, Json.wellFormed_str (J.laws.isUtf8_dump hverifier)⟩
  refine ⟨⟨hm, hv, hs⟩, ?_⟩
  simp [syncData, J.laws.parse_dump hall, J.laws.parse_dump hmaster, J.laws.parse_dump hverifier,
    J.laws.parse_dump hstorage, Json.stringAt, Json.get?, List.lookup_cons]

/-- An entry of a received map, read. -/
def readItem (J : JsonLibrary) (item : String × Json) : String × BlockChainNode :=
  (item.1, (received J item.2).getD { publicKey := "", uri := "", type := .masterNode })

theorem received_eq {item : String × Json} (h : (received J item.2).isSome = true) :
    received J item.2 = some (readItem J item).2 := by
  rcases Option.isSome_iff_exists.mp h with ⟨node, hnode⟩
  simp [readItem, hnode]

theorem assignAll_syncMaster {items : List (String × Json)}
    (h : ∀ item ∈ items, (received J item.2).isSome = true) (r : Registry) :
    ∃ masterNodes, assignAll (items.map (syncMaster J)) r = ({ r with masterNodes }, true) := by
  induction items generalizing r with
  | nil => exact ⟨r.masterNodes, rfl⟩
  | cons item items ih =>
      have hitem := received_eq (h item List.mem_cons_self)
      rw [List.map_cons, assignAll, syncMaster, hitem]
      exact ih (fun other hother => h other (List.mem_cons_of_mem item hother)) _

theorem assignAll_syncVerifier {items : List (String × Json)}
    (h : ∀ item ∈ items, (received J item.2).isSome = true) (r : Registry) :
    assignAll (items.map (syncVerifier J)) r =
      ({ r with verifiers := r.verifiers.registerAll (items.map (readItem J)) }, true) := by
  induction items generalizing r with
  | nil => rfl
  | cons item items ih =>
      have hitem := received_eq (h item List.mem_cons_self)
      rw [List.map_cons, assignAll, syncVerifier, hitem]
      exact ih (fun other hother => h other (List.mem_cons_of_mem item hother)) _

theorem assignAll_syncStorage {items : List (String × Json)}
    (h : ∀ item ∈ items, (received J item.2).isSome = true) (r : Registry) :
    assignAll (items.map (syncStorage J)) r =
      ({ r with storage := r.storage.registerAll (items.map (readItem J)) }, true) := by
  induction items generalizing r with
  | nil => rfl
  | cons item items ih =>
      have hitem := received_eq (h item List.mem_cons_self)
      rw [List.map_cons, assignAll, syncStorage, hitem]
      exact ih (fun other hother => h other (List.mem_cons_of_mem item hother)) _

/-- The nodes of a map that another master sends, as they are registered. -/
def sentNodes (J : JsonLibrary) (m : NodesMap) : List (String × BlockChainNode) :=
  (nodesJson J m).items.map (readItem J)

theorem perm_keys_sentNodes (J : JsonLibrary) (m : NodesMap) :
    ((sentNodes J m).map (·.1)).Perm m.keys := by
  have hkeys := perm_keys_nodesJson (J := J) m
  unfold sentNodes
  rw [List.map_map]
  exact hkeys

/-- The data of another master registers all its verifiers and storage nodes. -/
theorem syncNodes_eq {J : JsonLibrary} {other : Registry} {data : String}
    (h : other.buildSyncNodesInput J = some data) (r : Registry) :
    ∃ masterNodes, syncNodes J data r =
      { masterNodes
        verifiers := r.verifiers.registerAll (sentNodes J other.verifiers.nodes)
        storage := r.storage.registerAll (sentNodes J other.storage.nodes) } := by
  rcases syncData_buildSyncNodesInput h with ⟨⟨hm, hv, hs⟩, hdata⟩
  rcases assignAll_syncMaster (fun _ => received_of_mem J hm) r with ⟨masterNodes, hmasters⟩
  have hverifiers := assignAll_syncVerifier (fun _ => received_of_mem J hv) { r with masterNodes }
  have hboth := (assignAll_append hmasters).trans hverifiers
  refine ⟨masterNodes, ?_⟩
  unfold syncNodes
  rw [hdata]
  dsimp only
  rw [assignAll_append hboth, assignAll_syncStorage fun _ => received_of_mem J hs]
  rfl

end Registry

/-! ## Runs -/

/-- A connection request, or the data that another master has built from its registry, if it
could be printed. -/
inductive RegistryEvent where
  | addNode (key uri : String) (type : NodeType)
  | syncNodes (other : Registry)

def registryStep (J : JsonLibrary) : Step Registry RegistryEvent := fun r e =>
  match e with
  | .addNode key uri type => some (r.addNode J key uri type).1
  | .syncNodes other => (other.buildSyncNodesInput J).map fun data => r.syncNodes J data

/-- Verifiers and storage nodes are registered for the first time. -/
def FirstTime (r : Registry) (e : RegistryEvent) : Prop :=
  match e with
  | .addNode key _ .verifierNode => key ∉ r.verifiers.nodes.keys
  | .addNode key _ .storageNode => key ∉ r.storage.nodes.keys
  | .addNode _ _ _ => True
  | .syncNodes other =>
      (∀ key ∈ other.verifiers.nodes.keys, key ∉ r.verifiers.nodes.keys) ∧
        ∀ key ∈ other.storage.nodes.keys, key ∉ r.storage.nodes.keys

namespace Registry

def Consistent (r : Registry) : Prop := r.verifiers.Consistent ∧ r.storage.Consistent

def Linked (r : Registry) : Prop := r.verifiers.Linked ∧ r.storage.Linked

/-- Every verifier is at some index below the number of verifiers. -/
def ReachesVerifiers (r : Registry) : Prop :=
  ∀ key ∈ r.verifiers.nodes.keys,
    ∃ n < r.view.numberOfVerifiers, r.view.getVerifierNodeKey n = key

/-- Of two storage nodes or more, the first two keys are of different ones. -/
def SeparatesStorage (r : Registry) : Prop :=
  2 ≤ r.view.numberOfStorageNodes → r.view.getStorageNodeKey 0 ≠ r.view.getStorageNodeKey 1

variable {J : JsonLibrary} {r r' : Registry} {e : RegistryEvent} {es : List RegistryEvent}

theorem linked_step (h : r.Linked) (hstep : registryStep J r e = some r') : r'.Linked := by
  cases e with
  | addNode key uri type =>
      cases hstep
      cases type with
      | masterNode | unnamed => exact h
      | verifierNode => exact ⟨h.1.register, h.2⟩
      | storageNode => exact ⟨h.1, h.2.register⟩
  | syncNodes other =>
      rcases Option.map_eq_some_iff.mp hstep with ⟨data, hdata, rfl⟩
      rcases syncNodes_eq hdata r with ⟨masterNodes, heq⟩
      rw [heq]
      exact ⟨h.1.registerAll, h.2.registerAll⟩

theorem consistent_register_iff {l : Listed} (h : l.Linked) (key : String) (node : BlockChainNode) :
    (l.register key node).Consistent ↔ l.Consistent ∧ key ∉ l.nodes.keys := by
  have hiff : (l.registerAll [(key, node)]).Consistent ↔ _ := Listed.consistent_registerAll_iff h
  simpa [Listed.registerAll] using hiff

theorem consistent_sentNodes_iff {l : Listed} (h : l.Linked) (J : JsonLibrary) (m : NodesMap) :
    (l.registerAll (sentNodes J m)).Consistent ↔
      l.Consistent ∧ ∀ key ∈ m.keys, key ∉ l.nodes.keys := by
  have hperm := perm_keys_sentNodes J m
  have hnodup : ((sentNodes J m).map (·.1)).Nodup := hperm.nodup_iff.mpr m.nodup
  rw [Listed.consistent_registerAll_iff h]
  simp only [hnodup, true_and, hperm.mem_iff]

/-- A step leaves map and list consistent if and only if it registers for the first time. -/
theorem consistent_step_iff (h : r.Linked) (hstep : registryStep J r e = some r') :
    r'.Consistent ↔ r.Consistent ∧ FirstTime r e := by
  cases e with
  | addNode key uri type =>
      cases hstep
      cases type with
      | masterNode | unnamed => exact (and_iff_left trivial).symm
      | verifierNode =>
          show (Listed.register _ _ _).Consistent ∧ _ ↔ _
          rw [consistent_register_iff h.1]
          exact and_right_comm
      | storageNode =>
          show _ ∧ (Listed.register _ _ _).Consistent ↔ _
          rw [consistent_register_iff h.2]
          exact (and_assoc).symm
  | syncNodes other =>
      rcases Option.map_eq_some_iff.mp hstep with ⟨data, hdata, rfl⟩
      rcases syncNodes_eq hdata r with ⟨masterNodes, heq⟩
      rw [heq]
      show Listed.Consistent _ ∧ Listed.Consistent _ ↔ _
      rw [consistent_sentNodes_iff h.1, consistent_sentNodes_iff h.2]
      exact and_and_and_comm

theorem linked_run (h : Run (registryStep J) .empty es r) : r.Linked := by
  refine h.invariant (fun _ r => r.Linked) ?_ ?_
  · constructor <;> intro key <;> exact Iff.rfl
  · intro _ r e r' hinv _ hstep
    exact linked_step hinv hstep

/-- Map and list are consistent if and only if every step registered for the first time. -/
theorem consistent_iff_trace (h : Run (registryStep J) .empty es r) :
    r.Consistent ↔ Trace (registryStep J) FirstTime .empty es r := by
  constructor
  · induction h with
    | nil =>
        intro _
        exact .nil
    | snoc hrun _ hstep ih =>
        intro hconsistent
        rcases (consistent_step_iff (linked_run hrun) hstep).mp hconsistent with ⟨hbefore, hfirst⟩
        exact .snoc (ih hbefore) hfirst hstep
  · intro htrace
    refine (htrace.invariant (fun _ r => r.Linked ∧ r.Consistent) ?_ ?_).2
    · refine ⟨⟨?_, ?_⟩, ⟨List.nodup_nil, ?_⟩, List.nodup_nil, ?_⟩ <;>
        intro key <;> exact Iff.rfl
    · rintro _ r e r' ⟨hlinked, hconsistent⟩ hfirst hstep
      exact ⟨linked_step hlinked hstep,
        (consistent_step_iff hlinked hstep).mpr ⟨hconsistent, hfirst⟩⟩

/-! ## Selecting -/

theorem length_of_consistent {l : Listed} (h : l.Consistent) : l.keys.length = l.nodes.size := by
  have hperm : l.keys.Perm l.nodes.keys :=
    (List.perm_ext_iff_of_nodup h.1 l.nodes.nodup).mpr h.2
  rw [hperm.length_eq]
  exact List.length_map _

theorem reachesVerifiers_of_consistent (h : r.Consistent) : r.ReachesVerifiers := by
  intro key hkey
  rcases List.getElem_of_mem ((h.1.2 key).mpr hkey) with ⟨n, hn, hget⟩
  refine ⟨n, ?_, ?_⟩
  · rw [← hget] at hkey
    exact hn.trans_eq (length_of_consistent h.1)
  · show r.verifiers.keys.getD n "" = key
    rw [List.getD_eq_getElem _ _ hn, hget]

theorem separatesStorage_of_consistent (h : r.Consistent) : r.SeparatesStorage := by
  intro htwo heq
  have hlength : 2 ≤ r.storage.keys.length := by
    rw [length_of_consistent h.2]
    exact htwo
  have hsame : r.storage.keys.getD 0 "" = r.storage.keys.getD 1 "" := heq
  rw [List.getD_eq_getElem _ _ (by omega), List.getD_eq_getElem _ _ (by omega)] at hsame
  have hindex := (h.2.1.getElem_inj_iff).mp hsame
  omega

/-- In every run, list and map of the verifiers and of the storage nodes go together,
so that every verifier can be drawn and the first two storage nodes are different,
if and only if no verifier or storage node was registered a second time. -/
theorem registries_consistent_iff (J : JsonLibrary) (h : Run (registryStep J) .empty es r) :
    (r.Consistent ∧ r.ReachesVerifiers ∧ r.SeparatesStorage) ↔
      Trace (registryStep J) FirstTime .empty es r := by
  rw [← consistent_iff_trace h]
  constructor
  · exact And.left
  · intro hconsistent
    exact ⟨hconsistent, reachesVerifiers_of_consistent hconsistent,
      separatesStorage_of_consistent hconsistent⟩

end Registry

/-! ## Nodes that register once, and twice -/

instance (r : Registry) (e : RegistryEvent) : Decidable (FirstTime r e) :=
  match e with
  | .addNode key _ .verifierNode => inferInstanceAs (Decidable (key ∉ r.verifiers.nodes.keys))
  | .addNode key _ .storageNode => inferInstanceAs (Decidable (key ∉ r.storage.nodes.keys))
  | .addNode _ _ .masterNode | .addNode _ _ (.unnamed _) => instDecidableTrue
  | .syncNodes other =>
      inferInstanceAs (Decidable ((∀ key ∈ other.verifiers.nodes.keys,
        key ∉ r.verifiers.nodes.keys) ∧
          ∀ key ∈ other.storage.nodes.keys, key ∉ r.storage.nodes.keys))

namespace Sample

/-- Another master, with whom two nodes have registered. -/
def otherRegistry : Registry :=
  (Registry.addNode Json.library "s1" "ws://s1" .storageNode
    (Registry.addNode Json.library "v1" "ws://v1" .verifierNode .empty).1).1

/-- The data of another master, and two nodes that register themselves. -/
def firstRequests : List RegistryEvent :=
  [.syncNodes otherRegistry, .addNode "v2" "ws://v2" .verifierNode,
    .addNode "s2" "ws://s2" .storageNode]

/-- A verifier and a storage node ask twice before others do. -/
def repeatedRequests : List RegistryEvent :=
  [.addNode "v1" "ws://v1" .verifierNode, .addNode "v1" "ws://v1" .verifierNode,
    .addNode "v2" "ws://v2" .verifierNode, .addNode "s1" "ws://s1" .storageNode,
    .addNode "s1" "ws://s1" .storageNode, .addNode "s2" "ws://s2" .storageNode]

end Sample

/-- Nodes that register once can all be reached. -/
theorem registries_consistent_iff_once :
    ∃ r, Run (registryStep Json.library) .empty Sample.firstRequests r ∧
      (r.Consistent ∧ r.ReachesVerifiers ∧ r.SeparatesStorage) ∧
      r.verifiers.nodes.keys = ["v1", "v2"] := by
  obtain ⟨r, htrace, hcheck⟩ :
      ∃ r, Trace (registryStep Json.library) FirstTime .empty Sample.firstRequests r ∧
        decide (r.verifiers.nodes.keys = ["v1", "v2"]) = true :=
    exists_trace_of_exec _ (by decide +kernel)
  exact ⟨r, htrace.run, (Registry.registries_consistent_iff _ htrace.run).mpr htrace,
    of_decide_eq_true hcheck⟩

/-- A verifier that asks twice keeps another one out of reach, and a storage node that
does so is the first and the second one. -/
theorem registered_twice :
    ∃ r, Run (registryStep Json.library) .empty Sample.repeatedRequests r ∧
      ¬ r.verifiers.Consistent ∧ ¬ r.ReachesVerifiers ∧ ¬ r.SeparatesStorage := by
  obtain ⟨r, hrun, hcheck⟩ :
      ∃ r, Run (registryStep Json.library) .empty Sample.repeatedRequests r ∧
        decide (r.verifiers.keys = ["v1", "v1", "v2"] ∧ r.verifiers.nodes.keys = ["v1", "v2"] ∧
          r.view.numberOfVerifiers = 2 ∧ r.view.numberOfStorageNodes = 2 ∧
          r.storage.keys = ["s1", "s1", "s2"]) = true :=
    exists_trace_of_exec _ (by decide +kernel)
  rcases of_decide_eq_true hcheck with ⟨hkeys, hnodes, hverifiers, hstorage, hstored⟩
  refine ⟨r, hrun, ?_, ?_, ?_⟩
  · intro hconsistent
    have hnodup := hconsistent.1
    rw [hkeys] at hnodup
    revert hnodup
    decide
  · intro hreaches
    -- only the keys 0 and 1 are drawn
    rcases hreaches "v2" (by rw [hnodes]; decide) with ⟨n, hn, hget⟩
    rw [hverifiers] at hn
    have hread : r.verifiers.keys.getD n "" = "v2" := hget
    rw [hkeys] at hread
    match n, hn with
    | 0, _ | 1, _ => simp at hread
  · intro hseparates
    apply hseparates hstorage.ge
    show r.storage.keys.getD 0 "" = r.storage.keys.getD 1 ""
    rw [hstored]
    rfl

end DecentralizedCloud
