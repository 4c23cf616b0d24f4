import DecentralizedCloud.Storage.Soundness

/-!
# Completeness of the answers

A comparison should return every document that satisfies it. The filters find
their slice by a search for the value itself, so this depends on where the value
lies among the fields (`comparison_complete_iff`):

* it occurs: all but `>=` are complete, and `>=` is when a single document has it;
* it is absent, with documents below it: the answer is empty, which is right only
  if no document satisfies the comparison;
* it is below all documents: there is no answer at all.
-/

namespace DecentralizedCloud.Storage

open Evaluation

variable {S : Services} {sorts : (operand : String) → KeySort (field operand)}
  {_docs : Option (List Json)} {indexes : FieldValueMap} {docs : List Json}

/-- The answer holds every document that satisfies the comparison, as often as the
collection has it. -/
def Complete (op : Comparison) (operand value : String) (docs rs : List Json) : Prop :=
  ∃ ds, SameDocuments ds rs ∧ (satisfying operand value op docs).Subperm ds

/-- Where the value must lie among the fields. -/
def Reaches (op : Comparison) (operand value : String) (docs : List Json) : Prop :=
  (Occurs operand value docs ∧
      (op = .greaterEqual → (satisfying operand value .equal docs).length = 1)) ∨
    (¬Occurs operand value docs ∧ ¬Below operand value docs ∧
      satisfying operand value op docs = [])

instance (op : Comparison) (operand value : String) (docs : List Json) :
    Decidable (Reaches op operand value docs) :=
  inferInstanceAs (Decidable (_ ∨ _))

theorem mem_satisfying_equal {operand value : String} {doc : Json} (hdoc : doc ∈ docs)
    (hvalue : field operand doc = .str value) : doc ∈ satisfying operand value .equal docs :=
  List.mem_filter.mpr ⟨hdoc, decide_eq_true hvalue⟩

/-- The value occurs, and with `>=` in a single document. -/
theorem answer_complete {op : Comparison} {operand value : String} {ds : List Json}
    (h : Answers operand value docs ds op)
    (hone : op = .greaterEqual → (satisfying operand value .equal docs).length = 1) :
    (satisfying operand value op docs).Subperm ds := by
  cases op with
  | equal | notEqual | less | lessEqual =>
      have hperm : ds.Perm _ := h
      exact hperm.symm.subperm
  -- the answer to `>` has one document more
  | greater =>
      rw [Answers] at h
      split at h
      case isTrue hnil =>
          rw [hnil]
          exact List.nil_subperm
      case isFalse =>
          rcases h with ⟨doc, -, -, hperm⟩
          exact (List.sublist_cons_self _ _).subperm.trans hperm.symm.subperm
  -- the one document with the value is the extra one
  | greaterEqual =>
      rcases h with ⟨doc, hdoc, hvalue, hperm⟩
      have hsplit := perm_satisfying_greaterEqual operand value docs
      have hmem := mem_satisfying_equal hdoc hvalue
      rcases List.length_eq_one_iff.mp (hone rfl) with ⟨doc', hequal⟩
      rw [hequal, List.mem_singleton] at hmem
      subst hmem
      rw [hequal] at hsplit
      exact (hsplit.symm.trans hperm.symm).subperm

/-- With `>=` the answer has one document at the value, the collection as many as there
are. -/
theorem answer_incomplete {operand value : String} {ds : List Json}
    (h : Answers operand value docs ds .greaterEqual)
    (hmany : (satisfying operand value .equal docs).length ≠ 1) :
    ds.length < (satisfying operand value .greaterEqual docs).length := by
  rcases h with ⟨doc, hdoc, hvalue, hperm⟩
  have hpos := List.length_pos_of_mem (mem_satisfying_equal hdoc hvalue)
  rw [← (perm_satisfying_greaterEqual operand value docs).length_eq, hperm.length_eq,
    List.length_append, List.length_cons]
  omega

/-- A comparison of a field without an index returns every document that satisfies it, as
often as it is there, if and only if the value occurs in the field (with `>=` in just one
document), or it is absent, some document is below it and none satisfies the comparison. -/
theorem comparison_complete_iff (hentity : Entity S _docs indexes docs) (hne : docs ≠ [])
    (op : Comparison) {operand : String} (hindex : indexes.at? operand = none) (value : String) :
    (∃ rs, Answered S sorts _docs indexes (.compare op operand value) rs ∧
        Complete op operand value docs rs) ↔ Reaches op operand value docs := by
  by_cases hoccurs : Occurs operand value docs
  · -- the search finds a slice
    rcases evaluate_of_occurs sorts hentity hne hindex value op (Nat.lt_succ_self _) hoccurs with
      ⟨ds, rs, hdone, hsame, hanswer⟩
    constructor
    · rintro ⟨rs', hanswered, ds', hsame', hsub⟩
      cases hanswered.unique (answered_of_done hdone)
      refine .inl ⟨hoccurs, ?_⟩
      rintro rfl
      by_contra hmany
      have hlt := answer_incomplete hanswer hmany
      have hle := hsub.length_le
      rw [hsame'.length_eq, ← hsame.length_eq] at hle
      omega
    · rintro (⟨-, hone⟩ | ⟨habsent, -⟩)
      · exact ⟨rs, answered_of_done hdone, ds, hsame, answer_complete hanswer hone⟩
      · exact absurd hoccurs habsent
  · by_cases hbelow : Below operand value docs
    · -- the search does not come to an end
      constructor
      · rintro ⟨rs, ⟨n, hn⟩, -⟩
        have hdone : evaluateExpression S sorts n _docs (Condition.compare op operand value).tree
          indexes = .done (indexes, .arr rs) := hn n (Nat.le_refl n)
        rw [evaluate_of_below sorts hentity hne hindex value op hbelow] at hdone
        cases hdone
      · intro h
        simp [Reaches, hoccurs, hbelow] at h
    · have hdone := evaluate_of_absent sorts hentity hne hindex value op (Nat.lt_succ_self _) hbelow
        hoccurs
      have hreaches : Reaches op operand value docs ↔ satisfying operand value op docs = [] := by
        simp [Reaches, hoccurs, hbelow]
      rw [hreaches]
      constructor
      · rintro ⟨rs, hanswered, ds, hsame, hsub⟩
        cases hanswered.unique (answered_of_done hdone)
        cases hsame
        exact List.subperm_nil.mp hsub
      · intro hnil
        exact ⟨[], answered_of_done hdone, [], .nil, hnil ▸ List.nil_subperm⟩

/-- The letter "x" occurs once. -/
theorem comparison_complete_iff_once :
    ∃ rs, Answered Sample.services Sample.fieldSorts (some Sample.letters) []
        (.compare .greaterEqual "letter" "x") rs ∧
      Complete .greaterEqual "letter" "x" Sample.letters rs :=
  (comparison_complete_iff Sample.letters_entity (by decide) .greaterEqual rfl "x").mpr (by decide)

/-- No document has the letter "xy", and `"letter" < "xy"` returns none, not even the one
with an "x". -/
theorem lesser_document_missed :
    Entity Sample.services (some Sample.letters) [] Sample.letters ∧
      Answered Sample.services Sample.fieldSorts (some Sample.letters) []
        (.compare .less "letter" "xy") [] ∧
      Sample.document "d" "x" ∈ satisfying "letter" "xy" .less Sample.letters ∧
      ¬Complete .less "letter" "xy" Sample.letters [] := by
  refine ⟨Sample.letters_entity, ?_, by decide, ?_⟩
  · have hdone : evaluateExpression Sample.services Sample.fieldSorts 3 (some Sample.letters)
        (Condition.compare .less "letter" "xy").tree [] = .done ([], .arr []) := by
      decide +kernel
    exact answered_of_done hdone
  · rintro ⟨ds, hsame, hsub⟩
    cases hsame
    have hnil : satisfying "letter" "xy" .less Sample.letters ≠ [] := by decide
    exact hnil (List.subperm_nil.mp hsub)

end DecentralizedCloud.Storage
