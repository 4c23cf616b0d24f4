import DecentralizedCloud.Storage.SearchValues
import Mathlib.Data.List.Sort

/-!
# An object store that follows the laws

IPFS in its simplest form: an object is printed with its links in the order of
their names, and this text is its hash. Together with the JSON texts of
`JsonText.lean` it makes services that are lawful (`services_lawful`), and that
evaluate filters the way the nodes do (`searching_searches`).
-/

namespace DecentralizedCloud.Storage

namespace ObjectStore

open Evaluation

/-! ## Objects as texts -/

def hashOf (data : String) (edges : OrderedEdgeMap) : String :=
  Json.write (.arr [.str data, .obj (edges.map fun edge => (edge.1, .str edge.2))])

def edgeOf : String × Json → Option (String × String)
  | (name, .str hash) => some (name, hash)
  | _ => none

instance (edges : OrderedEdgeMap) : Decidable (Ascending edges) :=
  inferInstanceAs (Decidable (edges.Pairwise fun edge edge' => edge.1 < edge'.1))

/-- The object with a hash: a text counts only if it is the one that is printed. -/
def stored (hash : String) : Option (String × OrderedEdgeMap) :=
  match Json.read hash with
  | some (.arr [.str data, .obj members]) =>
      if Ascending (members.filterMap edgeOf) ∧ hashOf data (members.filterMap edgeOf) = hash then
        some (data, members.filterMap edgeOf)
      else none
  | _ => none

/-- A hash stands for the one object that it is the hash of. -/
theorem stored_eq_some {hash data : String} {edges : OrderedEdgeMap} :
    stored hash = some (data, edges) ↔ Ascending edges ∧ hash = hashOf data edges := by
  constructor
  · intro h
    unfold stored at h
    split at h
    · split at h
      case isTrue hcheck =>
          cases h
          exact ⟨hcheck.1, hcheck.2.symm⟩
      case isFalse => cases h
    · cases h
  · rintro ⟨hascending, rfl⟩
    have hedges : (edges.map fun edge => (edge.1, Json.str edge.2)).filterMap edgeOf = edges := by
      rw [List.filterMap_map]
      exact List.filterMap_some
    have hread : Json.read (hashOf data edges) =
        some (.arr [.str data, .obj (edges.map fun edge => (edge.1, .str edge.2))]) :=
      Json.read_write _
    rw [stored, hread]
    dsimp only
    rw [hedges, if_pos ⟨hascending, rfl⟩]

def contents (hash : String) : Option Contents :=
  (stored hash).map fun object => (object.1, fun name => object.2.lookup name)

theorem contents_eq_some {hash data : String} {links : String → Option String} :
    contents hash = some (data, links) ↔
      ∃ edges, Ascending edges ∧ hash = hashOf data edges ∧
        links = fun name => edges.lookup name := by
  constructor
  · intro h
    rcases Option.map_eq_some_iff.mp h with ⟨⟨data', edges⟩, hstored, hlinks⟩
    cases hlinks
    rcases stored_eq_some.mp hstored with ⟨hascending, hhash⟩
    exact ⟨edges, hascending, hhash, rfl⟩
  · rintro ⟨edges, hascending, rfl, rfl⟩
    rw [contents, stored_eq_some.mpr ⟨hascending, rfl⟩]
    rfl

/-! ## Requests -/

def withoutEdge (name : String) (edges : OrderedEdgeMap) : OrderedEdgeMap :=
  edges.filter fun edge => edge.1 ≠ name

def requests : Merkle.Requests String String String where
  put data links := some (hashOf data
    (links.foldl (fun edges link => OrderedEdgeMap.insert link.1 link.2 edges) []))
  addLink hash name target := do
    let (data, edges) ← stored hash
    let _ ← stored target
    return hashOf data (OrderedEdgeMap.insert name target (withoutEdge name edges))
  rmLink hash name := do
    let (data, edges) ← stored hash
    let _ ← edges.lookup name
    return hashOf data (withoutEdge name edges)

/-- Only the edge of the name is gone. -/
theorem lookup_withoutEdge (name : String) (edges : OrderedEdgeMap) (name' : String) :
    (withoutEdge name edges).lookup name' = if name' = name then none else edges.lookup name' := by
  induction edges with
  | nil => simp [withoutEdge]
  | cons edge edges ih =>
      rcases edge with ⟨n, hash⟩
      by_cases hn : n = name
      · subst hn
        -- this edge is left out
        have hdrop : withoutEdge n ((n, hash) :: edges) = withoutEdge n edges := by
          simp [withoutEdge]
        rw [hdrop, ih]
        split
        case isTrue => rfl
        case isFalse hne =>
            have hkeys : (name' == n) = false := by simpa using hne
            rw [List.lookup_cons, hkeys]
      · have hkeep : withoutEdge name ((n, hash) :: edges) = (n, hash) :: withoutEdge name edges := by
          simp [withoutEdge, hn]
        rw [hkeep, List.lookup_cons, List.lookup_cons, ih]
        by_cases hname : name' = n
        · subst hname
          simp [hn]
        · have hkeys : (name' == n) = false := by simpa using hname
          rw [hkeys]

theorem Ascending.withoutEdge {edges : OrderedEdgeMap} (h : Ascending edges) (name : String) :
    Ascending (withoutEdge name edges) :=
  List.Pairwise.filter _ h

theorem ascending_foldl_insert {edges : OrderedEdgeMap} (h : Ascending edges)
    (links : List (String × String)) :
    Ascending (links.foldl (fun edges link => OrderedEdgeMap.insert link.1 link.2 edges) edges) := by
  induction links generalizing edges with
  | nil => exact h
  | cons link links ih => exact ih (h.insert link.1 link.2)

/-- Edges in order are those that a lookup finds. -/
theorem mem_iff_lookup {edges : OrderedEdgeMap} (h : Ascending edges) (name hash : String) :
    (name, hash) ∈ edges ↔ edges.lookup name = some hash := by
  induction edges with
  | nil => simp
  | cons edge edges ih =>
      rcases edge with ⟨n, hash'⟩
      rcases List.pairwise_cons.mp h with ⟨hhead, hedges⟩
      rw [List.mem_cons, List.lookup_cons, ih hedges]
      by_cases hname : name = n
      · subst hname
        have hnone : edges.lookup name = none := by
          rw [List.lookup_eq_none_iff]
          intro edge hedge
          simpa using (hhead edge hedge).ne
        simp [hnone, eq_comm]
      · have hkeys : (name == n) = false := by simpa using hname
        simp [hkeys, hname]

/-- Edges in order are given by what they lead to. -/
theorem ascending_ext {edges edges' : OrderedEdgeMap} (h : Ascending edges)
    (h' : Ascending edges') (hlookup : ∀ name, edges.lookup name = edges'.lookup name) :
    edges = edges' := by
  have hirrefl : ∀ edges : OrderedEdgeMap, Ascending edges → edges.Nodup := by
    intro edges hedges
    apply hedges.imp
    rintro edge edge' hlt rfl
    exact lt_irrefl _ hlt
  have hperm : edges.Perm edges' := by
    rw [List.perm_ext_iff_of_nodup (hirrefl edges h) (hirrefl edges' h')]
    rintro ⟨name, hash⟩
    rw [mem_iff_lookup h, mem_iff_lookup h', hlookup]
  apply List.Perm.eq_of_pairwise _ h h' hperm
  intro edge edge' _ _ hlt hlt'
  exact absurd hlt' (lt_asymm hlt)

/-- Adding a link changes that link of the object. -/
theorem contents_addLink {hash name target hash' : String}
    (h : requests.addLink hash name target = some hash') :
    contents target ≠ none ∧ ∃ data links, contents hash = some (data, links) ∧
      contents hash' = some (data, Function.update links name (some target)) := by
  cases hhash : stored hash with
  | none => simp [requests, hhash] at h
  | some object =>
      cases htarget : stored target with
      | none => simp [requests, hhash, htarget] at h
      | some object' =>
          rcases object with ⟨data, edges⟩
          -- the edge is put in the place of one with its name
          have heq : hashOf data (OrderedEdgeMap.insert name target (withoutEdge name edges)) =
              hash' := by
            simpa [requests, hhash, htarget] using h
          rcases stored_eq_some.mp hhash with ⟨hascending, -⟩
          have hwithout := Ascending.withoutEdge hascending name
          refine ⟨by simp [contents, htarget], data, fun name => edges.lookup name,
            by rw [contents, hhash]; rfl,
            contents_eq_some.mpr ⟨_, hwithout.insert name target, heq.symm, ?_⟩⟩
          funext name'
          rw [hwithout.lookup_insert, lookup_withoutEdge, Function.update_apply]
          by_cases hname : name' = name
          · simp [hname]
          · simp [hname]

/-- Removing a link takes that link from the object. -/
theorem contents_rmLink {hash name hash' : String} (h : requests.rmLink hash name = some hash') :
    ∃ data links, contents hash = some (data, links) ∧ links name ≠ none ∧
      contents hash' = some (data, Function.update links name none) := by
  cases hhash : stored hash with
  | none => simp [requests, hhash] at h
  | some object =>
      rcases object with ⟨data, edges⟩
      cases hlookup : edges.lookup name with
      | none => simp [requests, hhash, hlookup] at h
      | some target =>
          have heq : hashOf data (withoutEdge name edges) = hash' := by
            simpa [requests, hhash, hlookup] using h
          rcases stored_eq_some.mp hhash with ⟨hascending, -⟩
          refine ⟨data, fun name => edges.lookup name, by rw [contents, hhash]; rfl,
            by simp [hlookup],
            contents_eq_some.mpr ⟨_, Ascending.withoutEdge hascending name, heq.symm, ?_⟩⟩
          funext name'
          rw [lookup_withoutEdge, Function.update_apply]

/-- The store meets the laws of the object requests. -/
theorem requests_lawful : Merkle.Lawful requests contents where
  ext := by
    rintro hash hash' ⟨data, links⟩ h h'
    rcases contents_eq_some.mp h with ⟨edges, hascending, rfl, hlinks⟩
    rcases contents_eq_some.mp h' with ⟨edges', hascending', rfl, hlinks'⟩
    rw [hlinks] at hlinks'
    -- the edges of an object are in order, so its links determine them
    rw [ascending_ext hascending hascending' (congrFun hlinks')]
  exists_put := fun data links _ => ⟨_, rfl⟩
  put := by
    intro data links hash h
    cases h
    refine contents_eq_some.mpr ⟨_, ascending_foldl_insert .nil links, rfl, ?_⟩
    funext name
    rw [lookup_foldl_insert .nil]
    exact Option.none_or.symm
  exists_addLink := by
    intro hash target name hhash htarget
    rw [contents, Ne, Option.map_eq_none_iff, ← Ne, Option.ne_none_iff_exists'] at hhash htarget
    rcases hhash with ⟨object, hobject⟩
    rcases htarget with ⟨object', hobject'⟩
    simp [requests, hobject, hobject']
  addLink := contents_addLink
  exists_rmLink := by
    intro hash data links name h hlink
    rcases contents_eq_some.mp h with ⟨edges, hascending, hhash, rfl⟩
    have hstored := stored_eq_some.mpr ⟨hascending, hhash⟩
    rcases Option.ne_none_iff_exists'.mp hlink with ⟨target, htarget⟩
    dsimp only at htarget
    simp [requests, hstored, htarget]
  rmLink := contents_rmLink

/-! ## Services -/

/-- Services over the store; the texts that base64 encodes and the search are left open. -/
def services (base64_decode : String → String) (evaluate : String → String → Option Json) :
    Services where
  parse := Json.parse
  dump := Json.write
  base64_decode := base64_decode
  iteration map := map
  objectPut := requests.put
  objectLinks hash := (stored hash).map (·.2)
  objectData hash := (stored hash).map (·.1)
  objectPatchAddLink := requests.addLink
  objectPatchRmLink := requests.rmLink
  evaluate := evaluate

/-- The store meets the laws of the services, with any search that returns held values. -/
theorem services_lawful (base64_decode : String → String)
    {evaluate : String → String → Option Json}
    (h : ∀ {hash expression j}, evaluate hash expression = some j → j.held = true) :
    (services base64_decode evaluate).Lawful contents where
  toJsonLaws := Json.laws
  held_of_evaluate := h
  iteration map := .refl map
  objects := requests_lawful
  empty := by
    have hread : Json.read "" = none := by decide
    rw [contents, stored, hread]
    rfl
  objectLinks := by
    intro hash data links h
    rcases contents_eq_some.mp h with ⟨edges, hascending, hhash, rfl⟩
    have hstored := stored_eq_some.mpr ⟨hascending, hhash⟩
    exact ⟨edges, by simp [services, hstored], mem_iff_lookup hascending⟩
  objectData := by
    intro hash data links h
    rcases contents_eq_some.mp h with ⟨edges, hascending, hhash, -⟩
    have hstored := stored_eq_some.mpr ⟨hascending, hhash⟩
    simp [services, hstored]

section Searching

variable (base64_decode : String → String) (sorts : (operand : String) → KeySort (field operand))

/-- The services without a search. -/
def unsearched : Services := services base64_decode fun _ _ => none

theorem unsearched_lawful : (unsearched base64_decode).Lawful contents :=
  services_lawful base64_decode nofun

/-- The search looks at objects, and not at the answers of the search. -/
theorem evaluateExpression_services (evaluate : String → String → Option Json) (fuel : Nat)
    (filter : TreeNode) (indexes : FieldValueMap) :
    evaluateExpression (services base64_decode evaluate) sorts fuel none filter indexes =
      evaluateExpression (unsearched base64_decode) sorts fuel none filter indexes := by
  -- documents are fetched as objects
  have hfetch : fetchDocuments (services base64_decode evaluate) =
      fetchDocuments (unsearched base64_decode) := by
    funext hashes
    induction hashes with
    | nil => rfl
    | cons hash hashes ih =>
        unfold fetchDocuments
        rw [ih]
        rfl
  -- and nothing else reads the services
  have hcompare : evaluateComparison (services base64_decode evaluate) sorts fuel none =
      evaluateComparison (unsearched base64_decode) sorts fuel none := by
    funext op indexes left right
    unfold evaluateComparison sortDocumentsByOperand collection fetchDocumentsFromDefaultIndex
      compareIndexed
    rw [hfetch]
    rfl
  induction filter generalizing indexes with
  | leaf root => rfl
  | node root left right ihl ihr =>
      unfold evaluateExpression
      rw [ihl, hcompare]
      congr 1
      funext result
      rcases result with ⟨indexes', docs⟩
      dsimp only
      rw [ihr]

open Classical in
/-- The services that answer what the search comes to. -/
noncomputable def searching : Services :=
  services base64_decode fun hash expression =>
    if h : ∃ docs, Returns (fun fuel => searchBelow (unsearched base64_decode) sorts fuel hash
      expression) docs then some h.choose
    else none

theorem searching_searches : (searching base64_decode sorts).Searches sorts := by
  intro hash expression docs h
  have hsame : ∀ fuel, searchBelow (searching base64_decode sorts) sorts fuel hash expression =
      searchBelow (unsearched base64_decode) sorts fuel hash expression := by
    intro fuel
    unfold searchBelow searching
    simp only [evaluateExpression_services]
    rfl
  simp only [hsame] at h
  have hexists : ∃ docs, Returns (fun fuel => searchBelow (unsearched base64_decode) sorts fuel
      hash expression) docs := ⟨docs, h⟩
  have hevaluate : (searching base64_decode sorts).evaluate hash expression =
      some hexists.choose := dif_pos hexists
  rw [hevaluate, hexists.choose_spec.unique h]

theorem searching_lawful : (searching base64_decode sorts).Lawful contents := by
  refine services_lawful base64_decode ?_
  intro hash expression j h
  have hparse : ∀ {text j}, (unsearched base64_decode).parse text = some j → j.held = true :=
    fun h => (Json.laws.wellFormed h).held
  split at h
  case isTrue hexists =>
      cases h
      rcases hexists.choose_spec with ⟨n, hn⟩
      exact held_searchBelow hparse sorts (hn n (Nat.le_refl n))
  case isFalse => cases h

end Searching

end ObjectStore

end DecentralizedCloud.Storage
