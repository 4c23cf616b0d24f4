import DecentralizedCloud.Lib.KeySort
import DecentralizedCloud.Storage.IdIndex

/-!
# What a comparison finds in an index

The values of an index are the names of its links, in the order of a `std::map`. A comparison
cuts a range out of them with `lower_bound` and `upper_bound`, and finds nothing where its first
bound is the end of the map. For `=`, `>` and `>=` nothing is to be found there. For `<`, `<=`
and `<>` the end says that all values are below the one compared with, and so all of them are
lost. And `<=` takes the value at the bound along, whether or not it is the one compared with
(`finds_exactly_iff`).
-/

namespace DecentralizedCloud.Storage

open Evaluation

namespace Comparison

/-- The value stands in the relation to the other one, as texts. -/
def Relates : Comparison → String → String → Prop
  | equal, x, y => x = y
  | notEqual, x, y => x ≠ y
  | less, x, y => x < y
  | lessEqual, x, y => x ≤ y
  | greaterEqual, x, y => y ≤ x
  | greater, x, y => y < x

instance : ∀ (op : Comparison) (x y : String), Decidable (op.Relates x y)
  | equal, x, y => inferInstanceAs (Decidable (x = y))
  | notEqual, x, y => inferInstanceAs (Decidable (x ≠ y))
  | less, x, y => inferInstanceAs (Decidable (x < y))
  | lessEqual, x, y => inferInstanceAs (Decidable (x ≤ y))
  | greaterEqual, x, y => inferInstanceAs (Decidable (y ≤ x))
  | greater, x, y => inferInstanceAs (Decidable (y < x))

end Comparison

/-- The node of an index links distinct values to documents. -/
structure LinksValues (S : Services) (hash : String) (links : List (String × String))
    (document : String → Json) : Prop where
  objectLinks : S.objectLinks hash = some links
  distinct : (links.map (·.1)).Nodup
  documents : ∀ link ∈ links, fetchDocument S link.2 = .done (document link.2)

/-- The links whose values stand in the relation to `value`. -/
def related (op : Comparison) (value : String) (links : List (String × String)) :
    List (String × String) :=
  links.filter fun link => op.Relates link.1 value

/-- The evaluation ends with the documents whose values stand in the relation, each once. -/
def FindsExactly (S : Services) (sorts : (operand : String) → KeySort (field operand))
    (_docs : Option (List Json)) (indexes : FieldValueMap) (links : List (String × String))
    (document : String → Json) (op : Comparison) (operand value : String) : Prop :=
  ∃ answer, Returns (fun fuel => evaluateExpression S sorts fuel _docs
      (Condition.compare op operand value).tree indexes) (indexes, answer) ∧
    (found answer).Perm ((related op value links).map fun link => document link.2)

/-- There is a bound at the value, or nothing to be found; and for `<=` the bound is the value. -/
def BoundMeets (links : List (String × String)) (value : String) : Comparison → Prop
  | .equal | .greater | .greaterEqual => True
  | .notEqual | .less => links = [] ∨ ∃ link ∈ links, value ≤ link.1
  | .lessEqual => links = [] ∨ ∃ link ∈ links, link.1 = value

/-! ## The map of the values -/

theorem insert_edge_perm {name hash : String} {edges : OrderedEdgeMap}
    (h : name ∉ edges.map (·.1)) : (edges.insert name hash).Perm ((name, hash) :: edges) := by
  induction edges with
  | nil => exact .refl _
  | cons edge edges ih =>
      rcases edge with ⟨name', hash'⟩
      rw [List.map_cons, List.mem_cons, not_or] at h
      unfold OrderedEdgeMap.insert
      split
      · exact .refl _
      · rw [if_neg h.1]
        exact ((ih h.2).cons _).trans (.swap _ _ _)

/-- Inserting edges with different names keeps them all. -/
theorem foldl_insert_perm {links : List (String × String)} {edges : OrderedEdgeMap}
    (h : ((edges ++ links).map (·.1)).Nodup) :
    (links.foldl (fun edges link => OrderedEdgeMap.insert link.1 link.2 edges) edges).Perm
      (edges ++ links) := by
  induction links generalizing edges with
  | nil => rw [List.foldl_nil, List.append_nil]
  | cons link links ih =>
      have hmiddle : (edges ++ link :: links).Perm (link :: edges ++ links) := List.perm_middle
      rw [(hmiddle.map _).nodup_iff] at h
      have hfresh : link.1 ∉ edges.map (·.1) := by
        intro hmem
        rw [List.cons_append, List.map_cons, List.nodup_cons, List.map_append] at h
        exact h.1 (List.mem_append_left _ hmem)
      have hinsert : (edges.insert link.1 link.2 ++ links).Perm (link :: edges ++ links) :=
        (insert_edge_perm hfresh).append_right links
      rw [List.foldl_cons]
      exact (ih ((hinsert.map _).nodup_iff.mpr h)).trans (hinsert.trans hmiddle.symm)

/-- Distinct links are all in the map. -/
theorem getOrderedEdgeNamesOf_perm {S : Services} {hash : String} {links : List (String × String)}
    (hlinks : S.objectLinks hash = some links) (hdistinct : (links.map (·.1)).Nodup) :
    (getOrderedEdgeNamesOf S hash).Perm links := by
  rw [getOrderedEdgeNamesOf, hlinks, Option.getD_some]
  have hnew : ((([] : OrderedEdgeMap) ++ links).map (·.1)).Nodup := hdistinct
  exact foldl_insert_perm hnew

section Bounds

variable {edges : OrderedEdgeMap} (h : Ascending edges) (value : String)

include h

/-- The ranges before and behind `lower_bound`. -/
theorem Ascending.lower_bound :
    edges.takeWhile (·.1 < value) = related .less value edges ∧
      edges.dropWhile (·.1 < value) = related .greaterEqual value edges := by
  have hspan := KeySort.span_eq_filter (p := fun edge : String × String => edge.1 < value)
    (h.imp fun hlt hbelow => by simpa using hlt.trans (of_decide_eq_true hbelow))
  refine ⟨hspan.1, hspan.2.trans ?_⟩
  apply List.filter_congr
  intro edge _
  rw [← decide_not]
  exact decide_eq_decide.mpr not_lt

/-- The range behind `upper_bound`. -/
theorem Ascending.upper_bound :
    edges.dropWhile (·.1 ≤ value) = related .greater value edges :=
  KeySort.dropWhile_eq_filter (h.imp le_of_lt) value

/-- Where the map has the value, it is the one at `lower_bound`. -/
theorem Ascending.related_equal (hmem : ∃ edge ∈ edges, edge.1 = value) :
    related .equal value edges = (related .greaterEqual value edges).take 1 := by
  induction edges with
  | nil =>
      rcases hmem with ⟨edge, hedge, -⟩
      cases hedge
  | cons edge edges ih =>
      rcases List.pairwise_cons.mp h with ⟨hhead, hedges⟩
      rcases hmem with ⟨edge', hedge', rfl⟩
      rcases List.mem_cons.mp hedge' with rfl | hedge'
      · -- the value comes first, and the other ones are above it
        have hnone : related .equal edge'.1 edges = [] := by
          rw [related, List.filter_eq_nil_iff]
          intro edge hedge hvalue
          exact (hhead edge hedge).ne' (of_decide_eq_true hvalue)
        simp [related, Comparison.Relates] at hnone ⊢
        exact hnone
      · have hlt : edge.1 < edge'.1 := hhead edge' hedge'
        have hstep := ih hedges ⟨edge', hedge', rfl⟩
        simpa [related, Comparison.Relates, hlt.ne, hlt.not_ge] using hstep

end Bounds

/-! ## The range that is fetched -/

/-- The links that a comparison fetches. -/
def fetched (op : Comparison) (value : String) (edges : OrderedEdgeMap) : OrderedEdgeMap :=
  match op with
  | .equal | .greater | .greaterEqual => related op value edges
  | .less => if related .greaterEqual value edges = [] then [] else related .less value edges
  | .notEqual =>
      if related .greaterEqual value edges = [] then []
      else related .less value edges ++ related .greater value edges
  | .lessEqual =>
      if related .greaterEqual value edges = [] then []
      else related .less value edges ++ (related .greaterEqual value edges).take 1

theorem fetchDocuments_map {S : Services} {document : String → Json} {edges : OrderedEdgeMap}
    (h : ∀ edge ∈ edges, fetchDocument S edge.2 = .done (document edge.2)) :
    fetchDocuments S (edges.map (·.2)) = .done (edges.map fun edge => document edge.2) := by
  induction edges with
  | nil => rfl
  | cons edge edges ih =>
      rw [List.map_cons, fetchDocuments, h edge List.mem_cons_self, done_bind,
        ih fun edge' hedge => h edge' (List.mem_cons_of_mem _ hedge), done_bind, pure_eq,
        List.map_cons]

/-- A list of links that is fetched, or passed over as nothing. -/
theorem exists_found {S : Services} {document : String → Json} {edges : OrderedEdgeMap}
    (h : ∀ edge ∈ edges, fetchDocument S edge.2 = .done (document edge.2)) {q : Prop}
    [Decidable q] :
    ∃ answer, (if q then .done (.str "") else do
        let docs ← fetchDocuments S (edges.map (·.2))
        return Json.arr docs) = Evaluation.done answer ∧
      found answer = (if q then [] else edges).map fun edge => document edge.2 := by
  by_cases hq : q
  · exact ⟨.str "", by simp [hq], by simp [hq, found]⟩
  · refine ⟨.arr (edges.map fun edge => document edge.2), ?_, ?_⟩
    · rw [if_neg hq, fetchDocuments_map h, done_bind, pure_eq]
    · rw [if_neg hq, found]

section Fetched

variable {edges : OrderedEdgeMap} (h : Ascending edges) {value : String}

include h

/-- The edges equal to a value are the one that a lookup finds. -/
theorem Ascending.related_equal_lookup :
    related .equal value edges = ((edges.lookup value).map fun hash => (value, hash)).toList := by
  have hnodup : (related .equal value edges).Nodup := by
    refine (h.imp ?_).filter _
    rintro edge _ hlt rfl
    exact lt_irrefl _ hlt
  -- the names are different, so at most one edge has the value
  have hmem : ∀ edge, edge ∈ related .equal value edges ↔
      edges.lookup value = some edge.2 ∧ edge.1 = value := by
    rintro ⟨name, hash⟩
    rw [related, List.mem_filter, h.mem_iff]
    constructor
    · rintro ⟨hlookup, hname⟩
      cases of_decide_eq_true hname
      exact ⟨hlookup, rfl⟩
    · rintro ⟨hlookup, rfl⟩
      exact ⟨hlookup, decide_eq_true rfl⟩
  cases hlookup : edges.lookup value with
  | none =>
      apply List.eq_nil_iff_forall_not_mem.mpr
      intro edge hedge
      rw [hmem, hlookup] at hedge
      cases hedge.1
  | some hash =>
      apply List.perm_singleton.mp
      apply (List.perm_ext_iff_of_nodup hnodup (List.nodup_singleton _)).mpr
      rintro ⟨name, hash'⟩
      rw [hmem, hlookup, List.mem_singleton, Prod.mk.injEq, Option.some.injEq]
      constructor
      · rintro ⟨rfl, rfl⟩
        exact ⟨rfl, rfl⟩
      · rintro ⟨rfl, rfl⟩
        exact ⟨rfl, rfl⟩

/-- A comparison finds the documents of the edges that it fetches. -/
theorem compareIndexed_found {S : Services} {document : String → Json}
    (hdocuments : ∀ edge ∈ edges, fetchDocument S edge.2 = .done (document edge.2))
    (op : Comparison) : ∃ answer, compareIndexed S op edges value = .done answer ∧
      found answer = (fetched op value edges).map fun edge => document edge.2 := by
  have hrelated : ∀ op, ∀ edge ∈ related op value edges,
      fetchDocument S edge.2 = .done (document edge.2) :=
    fun op edge hedge => hdocuments edge (List.mem_of_mem_filter hedge)
  have happend : ∀ {xs ys : OrderedEdgeMap},
      (∀ edge ∈ xs, fetchDocument S edge.2 = .done (document edge.2)) →
      (∀ edge ∈ ys, fetchDocument S edge.2 = .done (document edge.2)) →
      ∀ edge ∈ xs ++ ys, fetchDocument S edge.2 = .done (document edge.2) :=
    fun hxs hys edge hedge => (List.mem_append.mp hedge).elim (hxs edge) (hys edge)
  -- the bounds of the search are the edges with a related name
  simp only [compareIndexed, (h.lower_bound value).1, (h.lower_bound value).2, h.upper_bound value]
  cases op with
  | equal =>
      rw [fetched, h.related_equal_lookup]
      cases hlookup : edges.lookup value with
      | none => exact ⟨.str "", rfl, rfl⟩
      | some hash =>
          have hedge := hdocuments (value, hash) (h.mem_iff.mpr hlookup)
          refine ⟨.arr [document hash], ?_, rfl⟩
          simp [fetchDocuments, hedge]
  -- without an edge above the value the answer is the empty string
  | greater =>
      rcases exists_found (hrelated .greater) (q := related .greater value edges = []) with
        ⟨answer, hanswer, hfound⟩
      refine ⟨answer, hanswer, hfound.trans ?_⟩
      split
      next hnil => rw [fetched, hnil]
      next => rfl
  | greaterEqual =>
      rcases exists_found (hrelated .greaterEqual) (q := related .greaterEqual value edges = [])
        with ⟨answer, hanswer, hfound⟩
      refine ⟨answer, hanswer, hfound.trans ?_⟩
      split
      next hnil => rw [fetched, hnil]
      next => rfl
  | less => exact exists_found (hrelated .less)
  | notEqual => exact exists_found (happend (hrelated .less) (hrelated .greater))
  -- `<=` takes one edge from the other side
  | lessEqual =>
      exact exists_found (happend (hrelated .less) fun edge hedge =>
        hrelated .greaterEqual edge (List.mem_of_mem_take hedge))

omit h in
theorem related_nil_iff {op : Comparison} :
    related op value edges = [] ↔ ∀ edge ∈ edges, ¬op.Relates edge.1 value := by
  simp [related]

omit h in
/-- Below the end of the map are all values. -/
theorem related_of_end (hend : related .greaterEqual value edges = []) {op : Comparison}
    (hop : ∀ x, x < value → op.Relates x value) : related op value edges = edges := by
  rw [related, List.filter_eq_self]
  intro edge hedge
  have hlt := related_nil_iff.mp hend edge hedge
  exact decide_eq_true (hop _ (not_le.mp hlt))

omit h in
theorem related_greaterEqual_ne_nil {edge : String × String} (hedge : edge ∈ edges)
    (hle : value ≤ edge.1) : related .greaterEqual value edges ≠ [] :=
  fun hend => related_nil_iff.mp hend edge hedge hle

omit h in
theorem perm_related_notEqual :
    (related .less value edges ++ related .greater value edges).Perm
      (related .notEqual value edges) := by
  apply filter_append_filter_perm
  · exact fun edge => ne_iff_lt_or_gt
  · exact fun edge => lt_asymm

omit h in
theorem perm_related_lessEqual :
    (related .less value edges ++ related .equal value edges).Perm
      (related .lessEqual value edges) := by
  apply filter_append_filter_perm
  · exact fun edge => le_iff_lt_or_eq
  · exact fun edge => LT.lt.ne

/-- What is fetched are the related edges, if the bound is met. -/
theorem fetched_perm {op : Comparison} (hmeets : BoundMeets edges value op) :
    (fetched op value edges).Perm (related op value edges) := by
  cases op with
  | equal | greater | greaterEqual => exact .refl _
  | less =>
      rcases hmeets with rfl | ⟨edge, hedge, hle⟩
      · exact .refl _
      · rw [fetched, if_neg (related_greaterEqual_ne_nil hedge hle)]
  | notEqual =>
      rcases hmeets with rfl | ⟨edge, hedge, hle⟩
      · exact .refl _
      · rw [fetched, if_neg (related_greaterEqual_ne_nil hedge hle)]
        exact perm_related_notEqual
  | lessEqual =>
      rcases hmeets with rfl | ⟨edge, hedge, hvalue⟩
      · exact .refl _
      · rw [fetched, if_neg (related_greaterEqual_ne_nil hedge hvalue.ge),
          ← h.related_equal value ⟨edge, hedge, hvalue⟩]
        exact perm_related_lessEqual

omit h in
/-- Too few links are fetched where the bound is the end, and one too many where `<=` comes to a
value that is not the one compared with. -/
theorem boundMeets_of_length {op : Comparison}
    (hlength : (fetched op value edges).length = (related op value edges).length) :
    BoundMeets edges value op := by
  have hbound : related .greaterEqual value edges ≠ [] → ∃ edge ∈ edges, value ≤ edge.1 := by
    intro hne
    rcases List.exists_mem_of_ne_nil _ hne with ⟨edge, hedge⟩
    exact ⟨edge, (List.mem_filter.mp hedge).1, of_decide_eq_true (List.mem_filter.mp hedge).2⟩
  have hnone : ∀ op : Comparison, (∀ x, x < value → op.Relates x value) →
      related .greaterEqual value edges = [] →
      ([] : OrderedEdgeMap).length = (related op value edges).length → edges = [] := by
    intro op hop hend hlength
    rw [related_of_end hend hop] at hlength
    exact List.length_eq_zero_iff.mp hlength.symm
  cases op with
  | equal | greater | greaterEqual => trivial
  | less =>
      by_cases hend : related .greaterEqual value edges = []
      · rw [fetched, if_pos hend] at hlength
        exact .inl (hnone .less (fun _ hlt => hlt) hend hlength)
      · exact .inr (hbound hend)
  | notEqual =>
      by_cases hend : related .greaterEqual value edges = []
      · rw [fetched, if_pos hend] at hlength
        exact .inl (hnone .notEqual (fun _ hlt => hlt.ne) hend hlength)
      · exact .inr (hbound hend)
  | lessEqual =>
      by_cases hend : related .greaterEqual value edges = []
      · rw [fetched, if_pos hend] at hlength
        exact .inl (hnone .lessEqual (fun _ hlt => hlt.le) hend hlength)
      · -- the link at the bound is counted, so there is one with the value
        have hone : ((related .greaterEqual value edges).take 1).length = 1 := by
          rw [List.length_take]
          have hpos := List.length_pos_of_ne_nil hend
          omega
        rw [fetched, if_neg hend, ← perm_related_lessEqual.length_eq, List.length_append,
          List.length_append, hone] at hlength
        have hpos : 0 < (related .equal value edges).length := by omega
        rcases List.exists_mem_of_length_pos hpos with ⟨edge, hedge⟩
        exact .inr ⟨edge, (List.mem_filter.mp hedge).1,
          of_decide_eq_true (List.mem_filter.mp hedge).2⟩

end Fetched

theorem boundMeets_congr {links edges : List (String × String)} (hperm : edges.Perm links)
    {value : String} {op : Comparison} :
    BoundMeets edges value op ↔ BoundMeets links value op := by
  have hnil : edges = [] ↔ links = [] := by
    rw [← List.length_eq_zero_iff, hperm.length_eq, List.length_eq_zero_iff]
  cases op <;> simp [BoundMeets, hnil, hperm.mem_iff]

section Comparison

variable {S : Services} {sorts : (operand : String) → KeySort (field operand)}
  {_docs : Option (List Json)} {indexes : FieldValueMap} {operand hash : String}
  {links : List (String × String)} {document : String → Json} (hoperand : operand ≠ "id")
  (hindex : indexes.at? operand = some hash) (hlinks : LinksValues S hash links document)
  (op : Comparison) (value : String)

include hoperand hindex hlinks

variable (sorts _docs) in
/-- The evaluation ends with what is fetched from the map of the values. -/
theorem exists_answer : ∃ answer,
    Returns (fun fuel => evaluateExpression S sorts fuel _docs
      (Condition.compare op operand value).tree indexes) (indexes, answer) ∧
    found answer = (fetched op value (getOrderedEdgeNamesOf S hash)).map
      fun edge => document edge.2 := by
  have hperm := getOrderedEdgeNamesOf_perm hlinks.objectLinks hlinks.distinct
  have hdocuments := fun edge hedge => hlinks.documents edge (hperm.mem_iff.mp hedge)
  obtain ⟨answer, hanswer, hfound⟩ :
      ∃ answer, compareIndexed S op (getOrderedEdgeNamesOf S hash) value = .done answer ∧
        found answer = (fetched op value (getOrderedEdgeNamesOf S hash)).map
          fun edge => document edge.2 :=
    compareIndexed_found (ascending_getOrderedEdgeNamesOf S hash) hdocuments op
  refine ⟨answer, ⟨0, fun fuel _ => ?_⟩, hfound⟩
  simp [Condition.tree, evaluateExpression, evaluateComparison, asString, hindex, hoperand,
    hanswer]

omit hoperand hindex in
theorem related_map_perm :
    ((related op value (getOrderedEdgeNamesOf S hash)).map fun link => document link.2).Perm
      ((related op value links).map fun link => document link.2) :=
  ((getOrderedEdgeNamesOf_perm hlinks.objectLinks hlinks.distinct).filter _).map _

theorem FindsExactly.boundMeets
    (h : FindsExactly S sorts _docs indexes links document op operand value) :
    BoundMeets links value op := by
  rcases exists_answer sorts _docs hoperand hindex hlinks op value with ⟨answer, hreturns, hfound⟩
  rcases h with ⟨answer', hreturns', hexact⟩
  cases hreturns.unique hreturns'
  rw [← boundMeets_congr (getOrderedEdgeNamesOf_perm hlinks.objectLinks hlinks.distinct)]
  apply boundMeets_of_length
  have hlength := (hexact.trans (related_map_perm hlinks op value).symm).length_eq
  rwa [hfound, List.length_map, List.length_map] at hlength

/-- A comparison finds the documents whose values stand in the relation if and only if its bound
meets the values. -/
theorem finds_exactly_iff :
    FindsExactly S sorts _docs indexes links document op operand value ↔
      BoundMeets links value op := by
  refine ⟨FindsExactly.boundMeets hoperand hindex hlinks op value, ?_⟩
  intro hmeets
  rw [← boundMeets_congr (getOrderedEdgeNamesOf_perm hlinks.objectLinks hlinks.distinct)] at hmeets
  rcases exists_answer sorts _docs hoperand hindex hlinks op value with ⟨answer, hreturns, hfound⟩
  refine ⟨answer, hreturns, ?_⟩
  rw [hfound]
  have hfetched := fetched_perm (ascending_getOrderedEdgeNamesOf S hash) hmeets
  exact (hfetched.map _).trans (related_map_perm hlinks op value)

end Comparison

namespace Sample

def letterLinks : List (String × String) := [("x", "d"), ("y", "e")]

def letterDocument (hash : String) : Json := document hash (if hash = "d" then "x" else "y")

/-- An index with the values "x" and "y". -/
def letterServices : Services :=
  { services with
    parse := Json.read
    objectLinks := fun hash => if hash = "letters" then some letterLinks else none
    objectData := fun hash => some (Json.write (letterDocument hash)) }

theorem letters_linked : LinksValues letterServices "letters" letterLinks letterDocument where
  objectLinks := rfl
  distinct := by decide
  documents := by
    intro link _
    have hparse : letterServices.parse = Json.read := rfl
    have hdata : letterServices.objectData link.2 = some (Json.write (letterDocument link.2)) := rfl
    rw [fetchDocument, hdata, Option.getD_some, hparse, Json.read_write]
    rfl

theorem letterIndexes : FieldValueMap.at? [("letter", "letters")] "letter" = some "letters" := rfl

end Sample

/-- The values below "y". -/
theorem finds_exactly_iff_letters :
    FindsExactly Sample.letterServices Sample.fieldSorts none [("letter", "letters")]
      Sample.letterLinks Sample.letterDocument .less "letter" "y" :=
  (finds_exactly_iff (by decide) Sample.letterIndexes Sample.letters_linked .less "y").mpr
    (.inr ⟨("y", "e"), by decide, le_refl "y"⟩)

/-- All values are below "z" and none of them is found; and none is up to "a", but one is. -/
theorem letters_missed :
    LinksValues Sample.letterServices "letters" Sample.letterLinks Sample.letterDocument ∧
      (∀ sorts, ¬FindsExactly Sample.letterServices sorts none [("letter", "letters")]
        Sample.letterLinks Sample.letterDocument .less "letter" "z") ∧
      ∀ sorts, ¬FindsExactly Sample.letterServices sorts none [("letter", "letters")]
        Sample.letterLinks Sample.letterDocument .lessEqual "letter" "a" := by
  refine ⟨Sample.letters_linked, ?_, ?_⟩
  · intro sorts hfinds
    have hmeets := hfinds.boundMeets (by decide) Sample.letterIndexes Sample.letters_linked
    rcases hmeets with hnil | ⟨link, hlink, hle⟩
    · cases hnil
    · have hbelow : ∀ link ∈ Sample.letterLinks, ¬"z" ≤ link.1 := by decide
      exact hbelow link hlink hle
  · intro sorts hfinds
    have hmeets := hfinds.boundMeets (by decide) Sample.letterIndexes Sample.letters_linked
    rcases hmeets with hnil | ⟨link, hlink, hvalue⟩
    · cases hnil
    · have hother : ∀ link ∈ Sample.letterLinks, link.1 ≠ "a" := by decide
      exact hother link hlink hvalue

end DecentralizedCloud.Storage
