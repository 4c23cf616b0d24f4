import DecentralizedCloud.Storage.Query
import DecentralizedCloud.Storage.StateChanges

/-!
# Soundness of the answers

A filter must not return a document that does not satisfy it: an update or a
delete goes through all that it returns.

Reading a document may have entered `null` fields into it, so a document that
comes out is one of the collection up to the fields (`SameFields`); its id is the
same. The connectives keep what the comparisons promise, and so does the loop
over the answer (`conditions_sound_iff`). The one comparison that promises too
little is `>`: when a document is above the value, one that equals it comes out
as well.
-/

namespace DecentralizedCloud.Storage

open Evaluation Schedule

/-! ## What the loop over an answer writes -/

abbrev WritesOnly {α : Type} (allowed : String → Prop) (p : Cmd α) : Prop := p.Writes allowed

/-! ## Conditions -/

namespace Condition

/-- All comparisons of the condition have a property. -/
def All (p : Comparison → String → String → Prop) : Condition → Prop
  | compare op operand value => p op operand value
  | .and left right | .or left right => left.All p ∧ right.All p

def decideAll {p : Comparison → String → String → Prop}
    (hp : ∀ op operand value, Decidable (p op operand value)) :
    (condition : Condition) → Decidable (condition.All p)
  | compare op operand value => hp op operand value
  | .and left right | .or left right =>
      haveI := left.decideAll hp
      haveI := right.decideAll hp
      inferInstanceAs (Decidable (left.All p ∧ right.All p))

instance {p : Comparison → String → String → Prop}
    [hp : ∀ op operand value, Decidable (p op operand value)] (condition : Condition) :
    Decidable (condition.All p) :=
  condition.decideAll hp

/-- The condition and the conditions inside of it: those that the recursion evaluates. -/
def parts : Condition → List Condition
  | compare op operand value => [compare op operand value]
  | .and left right => .and left right :: (left.parts ++ right.parts)
  | .or left right => .or left right :: (left.parts ++ right.parts)

theorem self_mem_parts (condition : Condition) : condition ∈ condition.parts := by
  cases condition <;> simp [parts]

theorem All.of_part {p : Comparison → String → String → Prop} {condition part : Condition}
    (h : condition.All p) (hpart : part ∈ condition.parts) : part.All p := by
  induction condition with
  | compare op operand value =>
      rw [parts, List.mem_singleton] at hpart
      rwa [hpart]
  | and left right ihl ihr | or left right ihl ihr =>
      rw [parts, List.mem_cons, List.mem_append] at hpart
      rcases hpart with rfl | hpart | hpart
      · exact h
      · exact ihl h.1 hpart
      · exact ihr h.2 hpart

/-- A property of all comparisons is one of the parts that are comparisons. -/
theorem all_of_parts {p : Comparison → String → String → Prop} {condition : Condition}
    (h : ∀ op operand value, compare op operand value ∈ condition.parts → p op operand value) :
    condition.All p := by
  induction condition with
  | compare op operand value => exact h op operand value (self_mem_parts _)
  | and left right ihl ihr | or left right ihl ihr =>
      constructor
      · apply ihl
        intro op operand value hpart
        exact h op operand value (List.mem_cons_of_mem _ (List.mem_append_left _ hpart))
      · apply ihr
        intro op operand value hpart
        exact h op operand value (List.mem_cons_of_mem _ (List.mem_append_right _ hpart))

/-- Every document of the answer reads like one of the collection that satisfies the
condition. -/
def Sound (condition : Condition) (docs rs : List Json) : Prop :=
  ∀ doc' ∈ rs, ∃ doc ∈ docs, SameFields doc doc' ∧ condition.Sat doc

end Condition

/-! ## The connectives -/

theorem mem_insertDocument {doc doc' : Json} {docs : List Json} :
    doc' ∈ insertDocument doc docs ↔ doc' = doc ∨ doc' ∈ docs := by
  induction docs with
  | nil => simp [insertDocument]
  | cons d docs ih =>
      unfold insertDocument
      split
      · simp
      · split
        case isTrue h => simp [h]
        case isFalse => simp [ih, or_left_comm]

theorem mem_union_iff {xs ys : List Json} {doc : Json} :
    doc ∈ xs.foldl (fun hs doc => insertDocument doc hs) ys ↔ doc ∈ xs ∨ doc ∈ ys := by
  induction xs generalizing ys with
  | nil => simp
  | cons x xs ih =>
      rw [List.foldl_cons, ih, mem_insertDocument, List.mem_cons, or_left_comm, or_assoc]

section Evaluate

variable {S : Services} {sorts : (operand : String) → KeySort (field operand)}
  {_docs : Option (List Json)} {indexes : FieldValueMap} {left right : Condition}
  {rs rs' : List Json} {fuel : Nat}

theorem evaluate_and
    (hleft : evaluateExpression S sorts fuel _docs left.tree indexes = .done (indexes, .arr rs))
    (hright : evaluateExpression S sorts fuel _docs right.tree indexes = .done (indexes, .arr rs')) :
    evaluateExpression S sorts fuel _docs (Condition.and left right).tree indexes =
      .done (indexes, .arr (rs'.filter (· ∈ rs))) := by
  have hsymbol : Comparison.ofSymbol "&" = none := by decide
  have hne : "&" ≠ "|" := by decide
  simp only [Condition.tree, evaluateExpression, hleft, hright, done_bind, hsymbol, if_neg hne,
    if_true, Json.isEmpty, intersection]
  cases rs with
  | nil => simp
  | cons doc rs =>
      cases rs' with
      | nil => simp
      | cons doc' rs' => simp

/-- A disjunction comes to a union, in which there is nothing but the documents of both. -/
theorem evaluate_or
    (hleft : evaluateExpression S sorts fuel _docs left.tree indexes = .done (indexes, .arr rs))
    (hright : evaluateExpression S sorts fuel _docs right.tree indexes = .done (indexes, .arr rs')) :
    ∃ rs'', evaluateExpression S sorts fuel _docs (Condition.or left right).tree indexes =
        .done (indexes, .arr rs'') ∧ ∀ doc ∈ rs'', doc ∈ rs ∨ doc ∈ rs' := by
  have hsymbol : Comparison.ofSymbol "|" = none := by decide
  simp only [Condition.tree, evaluateExpression, hleft, hright, done_bind, hsymbol, if_true,
    Json.isEmpty, union_]
  cases rs with
  | nil => exact ⟨rs', by simp, fun doc hdoc => .inr hdoc⟩
  | cons doc rs =>
      cases rs' with
      | nil => exact ⟨doc :: rs, by simp, fun doc hdoc => .inl hdoc⟩
      | cons doc' rs' =>
          refine ⟨_, rfl, ?_⟩
          intro d hd
          rcases mem_union_iff.mp hd with hd | hd
          · exact List.mem_append.mp hd
          · cases hd

variable {docs : List Json}

theorem sound_and (hleft : left.Sound docs rs) (hright : right.Sound docs rs') :
    (Condition.and left right).Sound docs (rs'.filter (· ∈ rs)) := by
  intro doc' hdoc'
  rcases List.mem_filter.mp hdoc' with ⟨hmem, hmem'⟩
  rcases hleft doc' (of_decide_eq_true hmem') with ⟨doc₁, -, hsame₁, hsat₁⟩
  rcases hright doc' hmem with ⟨doc, hdoc, hsame, hsat⟩
  -- the two documents of the collection read the same
  have hsat' := (left.sat_iff_of_sameFields hsame₁).mp hsat₁
  exact ⟨doc, hdoc, hsame, (left.sat_iff_of_sameFields hsame).mpr hsat', hsat⟩

theorem sound_or (hleft : left.Sound docs rs) (hright : right.Sound docs rs') {rs'' : List Json}
    (hunion : ∀ doc ∈ rs'', doc ∈ rs ∨ doc ∈ rs') : (Condition.or left right).Sound docs rs'' := by
  intro doc' hdoc'
  rcases hunion doc' hdoc' with hmem | hmem
  · rcases hleft doc' hmem with ⟨doc, hdoc, hsame, hsat⟩
    exact ⟨doc, hdoc, hsame, .inl hsat⟩
  · rcases hright doc' hmem with ⟨doc, hdoc, hsame, hsat⟩
    exact ⟨doc, hdoc, hsame, .inr hsat⟩

/-! ## The comparisons -/

theorem exists_of_mem_same {ds rs : List Json} (h : SameDocuments ds rs) :
    ∀ doc' ∈ rs, ∃ doc ∈ ds, SameFields doc doc' := by
  induction h with
  | nil => simp
  | cons hdoc _ ih =>
      intro doc' hdoc'
      rcases List.mem_cons.mp hdoc' with rfl | hdoc'
      · exact ⟨_, List.mem_cons_self, hdoc⟩
      · rcases ih doc' hdoc' with ⟨doc, hmem, hsame⟩
        exact ⟨doc, List.mem_cons_of_mem _ hmem, hsame⟩

theorem exists_same_of_mem {ds rs : List Json} (h : SameDocuments ds rs) :
    ∀ doc ∈ ds, ∃ doc' ∈ rs, SameFields doc doc' := by
  induction h with
  | nil => simp
  | cons hdoc _ ih =>
      intro doc hmem
      rcases List.mem_cons.mp hmem with rfl | hmem
      · exact ⟨_, List.mem_cons_self, hdoc⟩
      · rcases ih doc hmem with ⟨doc', hmem', hsame⟩
        exact ⟨doc', List.mem_cons_of_mem _ hmem', hsame⟩

theorem Occurs.ne_nil {operand value : String} (h : Occurs operand value docs) : docs ≠ [] := by
  rcases h with ⟨doc, hdoc, -⟩
  exact List.ne_nil_of_mem hdoc

/-- No document is above the value of a comparison with `>`. -/
def NoneAbove (docs : List Json) (op : Comparison) (operand value : String) : Prop :=
  op = .greater → ∀ doc ∈ docs, ¬.str value < field operand doc

instance (docs : List Json) (op : Comparison) (operand value : String) :
    Decidable (NoneAbove docs op operand value) :=
  inferInstanceAs (Decidable (op = .greater → ∀ doc ∈ docs, _))

/-- An answer has only documents that satisfy the comparison, if none is above the value of a `>`.
-/
theorem sound_answer {op : Comparison} {operand value : String} {ds : List Json}
    (hnone : NoneAbove docs op operand value) (h : Answers operand value docs ds op) :
    ∀ doc ∈ ds, doc ∈ docs ∧ op.Holds (field operand doc) (.str value) := by
  have hfilter : ds.Perm (satisfying operand value op docs) →
      ∀ doc ∈ ds, doc ∈ docs ∧ op.Holds (field operand doc) (.str value) := by
    intro hperm doc hdoc
    rcases List.mem_filter.mp (hperm.mem_iff.mp hdoc) with ⟨hmem, hholds⟩
    exact ⟨hmem, of_decide_eq_true hholds⟩
  intro doc hdoc
  cases op with
  | equal | notEqual | less | lessEqual => exact hfilter h doc hdoc
  | greaterEqual =>
      rcases h with ⟨doc', hdoc', hvalue, hperm⟩
      rcases List.mem_cons.mp (hperm.mem_iff.mp hdoc) with rfl | hmem
      · exact ⟨hdoc', hvalue.ge⟩
      · rcases List.mem_filter.mp hmem with ⟨hmem, hholds⟩
        have habove : Json.str value < field operand doc := of_decide_eq_true hholds
        exact ⟨hmem, habove.le⟩
  | greater =>
      rw [Answers, if_pos ((satisfying_greater_eq_nil_iff operand value).mpr (hnone rfl))] at h
      rw [h] at hdoc
      cases hdoc

/-- A comparison with `>` that has documents above its value returns one that equals it. -/
theorem unsound_answer {operand value : String} {ds : List Json}
    (h : Answers operand value docs ds .greater) {doc : Json} (hdoc : doc ∈ docs)
    (habove : .str value < field operand doc) :
    ∃ doc ∈ ds, field operand doc = .str value := by
  have hsome : ¬satisfying operand value .greater docs = [] :=
    fun hnil => (satisfying_greater_eq_nil_iff operand value).mp hnil doc hdoc habove
  rw [Answers, if_neg hsome] at h
  rcases h with ⟨doc', -, hvalue, hperm⟩
  exact ⟨doc', hperm.mem_iff.mpr List.mem_cons_self, hvalue⟩

/-! ## Whole conditions -/

/-- Comparisons of fields without an index with values that occur. -/
def Searched (indexes : FieldValueMap) (docs : List Json) (_ : Comparison)
    (operand value : String) : Prop :=
  indexes.at? operand = none ∧ Occurs operand value docs

instance (indexes : FieldValueMap) (docs : List Json) (op : Comparison)
    (operand value : String) : Decidable (Searched indexes docs op operand value) :=
  inferInstanceAs (Decidable (_ ∧ _))

/-- If no document is above the value of a `>`, a condition finds only what satisfies it. -/
theorem evaluate_sound (hentity : Entity S _docs indexes docs) (hfuel : docs.length < fuel)
    {condition : Condition} (hsearched : condition.All (Searched indexes docs))
    (hnone : condition.All (NoneAbove docs)) :
    ∃ rs, evaluateExpression S sorts fuel _docs condition.tree indexes =
      .done (indexes, .arr rs) ∧ condition.Sound docs rs := by
  induction condition with
  | compare op operand value =>
      rcases hsearched with ⟨hindex, hoccurs⟩
      rcases evaluate_of_occurs sorts hentity hoccurs.ne_nil hindex value op hfuel hoccurs with
        ⟨ds, rs, hdone, hsame, hanswer⟩
      refine ⟨rs, hdone, ?_⟩
      intro doc' hdoc'
      -- the answer has the fields of documents of the collection
      rcases exists_of_mem_same hsame doc' hdoc' with ⟨doc, hdoc, hfields⟩
      rcases sound_answer hnone hanswer doc hdoc with ⟨hmem, hholds⟩
      exact ⟨doc, hmem, hfields, hholds⟩
  | and left right ihl ihr =>
      rcases ihl hsearched.1 hnone.1 with ⟨rs, hleft, hsound⟩
      rcases ihr hsearched.2 hnone.2 with ⟨rs', hright, hsound'⟩
      exact ⟨_, evaluate_and hleft hright, sound_and hsound hsound'⟩
  | or left right ihl ihr =>
      rcases ihl hsearched.1 hnone.1 with ⟨rs, hleft, hsound⟩
      rcases ihr hsearched.2 hnone.2 with ⟨rs', hright, hsound'⟩
      rcases evaluate_or hleft hright with ⟨rs'', hdone, hunion⟩
      exact ⟨rs'', hdone, sound_or hsound hsound' hunion⟩

end Evaluate

/-- Updating or deleting the documents `rs` one after another leaves alone the keys of all
documents but those that satisfy the condition. -/
def Condition.Spares (condition : Condition) (docs rs : List Json) : Prop :=
  ∀ (S : Services) (x : CommandEnv) (source channelId txid tid entityId documentJson : String)
    (op : DocumentOp), op ≠ .create → ∀ (dht : String → String) (key : String),
    key ≠ dataRootKey tid entityId →
    (∀ doc ∈ docs, condition.Sat doc → ∀ id, doc.stringAt "id" = some id →
      key ≠ documentKey tid entityId id) →
    ((eachDocument S x source channelId txid tid entityId documentJson op rs).run dht).1 key =
      dht key

/-- Documents with the same fields have the same texts. -/
theorem stringAt_of_sameFields {doc doc' : Json} (h : SameFields doc doc') (key : String) :
    doc.stringAt key = doc'.stringAt key := by
  have hfield := h.field key
  unfold field at hfield
  unfold Json.stringAt
  cases hget : doc.get? key with
  | none =>
      cases hget' : doc'.get? key with
      | none => rfl
      | some j =>
          rw [hget, hget'] at hfield
          cases hfield
          rfl
  | some j =>
      cases hget' : doc'.get? key with
      | none =>
          rw [hget, hget'] at hfield
          cases hfield
          rfl
      | some j' =>
          rw [hget, hget'] at hfield
          cases hfield
          rfl

variable {S : Services} {sorts : (operand : String) → KeySort (field operand)}
  {_docs : Option (List Json)} {indexes : FieldValueMap} {docs : List Json}

theorem Condition.Sound.spares {condition : Condition} {rs : List Json}
    (h : condition.Sound docs rs) : condition.Spares docs rs := by
  intro S x source channelId txid tid entityId documentJson op hop dht key hroot hdocs
  have hwrites : WritesOnly (fun k => k ≠ key)
      (eachDocument S x source channelId txid tid entityId documentJson op rs) := by
    have hconfined : Confined (fun _ => True) (fun k => k ≠ key) (fun _ => True)
        (eachDocument S x source channelId txid tid entityId documentJson op rs) := by
      apply confined_eachDocument (sendsOnly_all x source) hop trivial hroot.symm
      intro doc' hdoc' id hid
      rcases h doc' hdoc' with ⟨doc, hdoc, hsame, hsat⟩
      rw [← stringAt_of_sameFields hsame] at hid
      exact (hdocs doc hdoc hsat id hid).symm
    exact hconfined.2.1
  exact Prog.run_of_writes hwrites (fun hne => hne rfl) dht

/-- For a condition of comparisons with values that occur in fields without an index:
whatever is evaluated on the way, the condition and the conditions inside of it, returns
only documents that satisfy it, and a loop over the answer touches only such documents,
if and only if no comparison with `>` has a document above its value. -/
theorem conditions_sound_iff (hentity : Entity S _docs indexes docs) (condition : Condition)
    (hsearched : condition.All (Searched indexes docs)) :
    (∀ part ∈ condition.parts, ∃ rs, Answered S sorts _docs indexes part rs ∧
        part.Sound docs rs ∧ part.Spares docs rs) ↔
      condition.All (NoneAbove docs) := by
  constructor
  · intro h
    apply Condition.all_of_parts
    rintro op operand value hpart rfl doc hdoc habove
    rcases h _ hpart with ⟨rs, hanswered, hsound, -⟩
    rcases hsearched.of_part hpart with ⟨hindex, hoccurs⟩
    rcases evaluate_of_occurs sorts hentity hoccurs.ne_nil hindex value .greater
      (Nat.lt_succ_self _) hoccurs with ⟨ds, rs', hdone, hsame, hanswer⟩
    cases hanswered.unique (answered_of_done hdone)
    -- the document that equals the value has come out under some form
    rcases unsound_answer hanswer hdoc habove with ⟨doc₁, hdoc₁, hvalue⟩
    rcases exists_same_of_mem hsame doc₁ hdoc₁ with ⟨doc₂, hdoc₂, hfields⟩
    rcases hsound doc₂ hdoc₂ with ⟨doc₃, -, hfields', hsat⟩
    rw [(Condition.compare .greater operand value).sat_iff_of_sameFields hfields',
      ← Condition.sat_iff_of_sameFields hfields] at hsat
    rw [Condition.Sat, Comparison.Holds, hvalue] at hsat
    exact lt_irrefl _ hsat
  · intro hnone part hpart
    rcases evaluate_sound hentity (Nat.lt_succ_self _) (hsearched.of_part hpart)
      (hnone.of_part hpart) with ⟨rs, hdone, hsound⟩
    exact ⟨rs, answered_of_done hdone, hsound, hsound.spares⟩

namespace Sample

def fieldSorts (operand : String) : KeySort (field operand) := .insertion (field operand)

def document (id letter : String) : Json := .obj [("id", .str id), ("letter", .str letter)]

def letters : List Json := [document "d" "x", document "e" "y"]

theorem letters_entity {S : Services} : Entity S (some letters) [] letters where
  collection := rfl
  documents := by
    intro doc hdoc
    simp only [letters, List.mem_cons, List.not_mem_nil, or_false] at hdoc
    rcases hdoc with rfl | rfl <;> exact ⟨_, rfl⟩
  length := by decide

end Sample

/-- Nothing is above "y". -/
theorem conditions_sound_iff_maximal :
    ∃ rs, Answered Sample.services Sample.fieldSorts (some Sample.letters) []
        (.or (.compare .greater "letter" "y") (.compare .less "letter" "y")) rs ∧
      (Condition.or (.compare .greater "letter" "y") (.compare .less "letter" "y")).Sound
        Sample.letters rs ∧
      (Condition.or (.compare .greater "letter" "y") (.compare .less "letter" "y")).Spares
        Sample.letters rs :=
  (conditions_sound_iff Sample.letters_entity _ (by decide)).mpr (by decide) _
    (Condition.self_mem_parts _)

/-- A document with the letter "x" comes out of `"letter" > "x"`. -/
theorem equal_document_returned :
    (Condition.compare .greater "letter" "x").All (Searched [] Sample.letters) ∧
      Entity Sample.services (some Sample.letters) [] Sample.letters ∧
      Answered Sample.services Sample.fieldSorts (some Sample.letters) []
        (.compare .greater "letter" "x") Sample.letters ∧
      ¬(Condition.compare .greater "letter" "x").Sound Sample.letters Sample.letters := by
  refine ⟨by decide, Sample.letters_entity, ?_, ?_⟩
  · have hdone : evaluateExpression Sample.services Sample.fieldSorts 3 (some Sample.letters)
        (Condition.compare .greater "letter" "x").tree [] = .done ([], .arr Sample.letters) := by
      decide +kernel
    exact answered_of_done hdone
  · intro hsound
    rcases hsound (Sample.document "d" "x") List.mem_cons_self with ⟨doc, -, hsame, hsat⟩
    rw [Condition.sat_iff_of_sameFields hsame] at hsat
    exact absurd hsat (by decide)

end DecentralizedCloud.Storage
