import DecentralizedCloud.Storage.EntityIndex
import DecentralizedCloud.Storage.Soundness

/-!
# Values that the search makes

The search changes documents while it reads them, and puts together what it finds. All
that it makes are values of the library again (`held_searchBelow`), though a field that
it enters may have a name that is not UTF-8, which no document could be printed with.
-/

namespace DecentralizedCloud.Storage

open Evaluation

/-! ## Results -/

section Yields

variable {α β : Type} {p : α → Prop} {q : β → Prop}

/-- If the call ends, its result has the property. -/
def Evaluation.Yields (p : α → Prop) (call : Evaluation α) : Prop := ∀ a, call = done a → p a

theorem yields_done {a : α} (h : p a) : Yields p (done a) := by
  rintro _ ⟨⟩
  exact h

theorem yields_raised : Yields p raised := nofun

theorem yields_pending : Yields p pending := nofun

theorem Evaluation.Yields.bind {call : Evaluation α} {f : α → Evaluation β} (h : Yields p call)
    (hf : ∀ a, p a → Yields q (f a)) : Yields q (call >>= f) := by
  intro b hb
  rcases bind_eq_done.mp hb with ⟨a, ha, hfa⟩
  exact hf a (h a ha) b hfa

end Yields

/-! ## Fields -/

def HeldAll (docs : List Json) : Prop := ∀ doc ∈ docs, doc.held = true

section Fields

variable {operand value : String} {docs : List Json}

theorem HeldAll.sublist {docs' : List Json} (h : HeldAll docs) (hsub : docs'.Sublist docs) :
    HeldAll docs' := fun doc hdoc => h doc (hsub.subset hdoc)

theorem HeldAll.append {docs' : List Json} (h : HeldAll docs) (h' : HeldAll docs') :
    HeldAll (docs ++ docs') := List.forall_mem_append.mpr ⟨h, h'⟩

theorem held_enterField {doc doc' : Json} (h : doc.held = true)
    (henter : enterField operand doc = some doc') : doc'.held = true := by
  cases doc with
  | obj members =>
      cases henter
      split
      · exact h
      · exact Json.held_insertMember h rfl
  | null =>
      cases henter
      exact Json.held_obj.mpr ⟨List.pairwise_singleton .., by simp [Json.held]⟩
  | bool b | num q | str s | arr elems => cases henter

/-- Entering a field keeps the elements held. -/
theorem yields_readField (h : HeldAll docs) (i : Nat) :
    Yields (fun result => HeldAll result.1) (readField operand docs i) := by
  have hfilled : HeldAll (docs ++ List.replicate (i + 1 - docs.length) .null) := by
    apply h.append
    intro doc hdoc
    rw [List.eq_of_mem_replicate hdoc]
    rfl
  unfold readField
  dsimp only
  cases henter : (docs ++ List.replicate (i + 1 - docs.length) Json.null)[i]?.bind
    (enterField operand) with
  | none => exact yields_raised
  | some doc' =>
      rcases Option.bind_eq_some_iff.mp henter with ⟨doc, hdoc, hread⟩
      refine yields_done fun other hother => ?_
      rcases List.mem_or_eq_of_mem_set hother with hold | rfl
      · exact hfilled other hold
      · exact held_enterField (hfilled doc (List.mem_of_getElem? hdoc)) hread

/-! ## The binary search -/

/-- A search keeps the elements held. -/
theorem yields_getSearchIndex (h : HeldAll docs) (fuel beginIndex endIndex : Nat) :
    Yields (fun result => HeldAll result.1)
      (getSearchIndex operand value fuel docs beginIndex endIndex) := by
  induction fuel generalizing docs beginIndex endIndex with
  | zero => exact yields_pending
  | succ fuel ih =>
      unfold getSearchIndex
      split
      · refine (yields_readField h _).bind ?_
        rintro ⟨docs', found⟩ hdocs'
        dsimp only
        split
        · exact yields_done hdocs'
        · split
          · exact ih hdocs' _ _
          · exact ih hdocs' _ _
      · exact yields_done h

theorem yields_lowerLoop (h : HeldAll docs) (fuel n first lastfoundat : Nat) :
    Yields (fun result => HeldAll result.1)
      (lowerLoop operand value fuel n docs first lastfoundat) := by
  induction n generalizing docs first lastfoundat with
  | zero => exact yields_pending
  | succ n ih =>
      unfold lowerLoop
      split
      · exact yields_done h
      · refine (yields_getSearchIndex h _ _ _).bind ?_
        rintro ⟨docs', result⟩ hdocs'
        dsimp only
        split
        · exact ih hdocs' _ _
        · exact yields_done hdocs'

theorem yields_upperLoop (h : HeldAll docs) (fuel n lastfoundat last : Nat) :
    Yields (fun result => HeldAll result.1)
      (upperLoop operand value fuel n docs lastfoundat last) := by
  induction n generalizing docs lastfoundat last with
  | zero => exact yields_pending
  | succ n ih =>
      unfold upperLoop
      refine (yields_getSearchIndex h _ _ _).bind ?_
      rintro ⟨docs', result⟩ hdocs'
      dsimp only
      split
      · exact ih hdocs' _ _
      · exact yields_done hdocs'

theorem yields_getlowerIndex (h : HeldAll docs) (fuel : Nat) :
    Yields (fun result => HeldAll result.1) (getlowerIndex operand value fuel docs) := by
  unfold getlowerIndex
  refine (yields_getSearchIndex h _ _ _).bind ?_
  rintro ⟨docs', result⟩ hdocs'
  dsimp only
  split
  · exact (yields_lowerLoop hdocs' _ _ _ _).bind fun _ hdocs'' => yields_done hdocs''
  · exact yields_done hdocs'

theorem yields_getUpperIndex (h : HeldAll docs) (fuel : Nat) :
    Yields (fun result => HeldAll result.1) (getUpperIndex operand value fuel docs) := by
  unfold getUpperIndex
  refine (yields_getSearchIndex h _ _ _).bind ?_
  rintro ⟨docs', result⟩ hdocs'
  dsimp only
  split
  · exact (yields_upperLoop hdocs' _ _ _ _).bind fun _ hdocs'' => yields_done hdocs''
  · exact yields_done hdocs'

/-- Every operator takes slices of the array that its searches leave. -/
theorem yields_filter (op : Comparison) (h : HeldAll docs) (fuel : Nat) :
    Yields HeldAll (op.filter operand value fuel docs) := by
  have hnil : Yields HeldAll (done []) := yields_done nofun
  have hlower : Yields (fun result => HeldAll result.1) (getlowerIndex operand value fuel docs) :=
    yields_getlowerIndex h fuel
  have hupper : ∀ {docs}, HeldAll docs →
      Yields (fun result => HeldAll result.1) (getUpperIndex operand value fuel docs) :=
    fun hdocs => yields_getUpperIndex hdocs fuel
  -- without a position of the value the operators return nothing
  cases op with
  | notEqual =>
      show Yields HeldAll (not_equals operand value fuel docs)
      refine hlower.bind ?_
      rintro ⟨docs', _ | lower⟩ hdocs'
      · exact hnil
      · refine (hupper hdocs').bind ?_
        rintro ⟨docs'', upper⟩ hdocs''
        exact yields_done ((hdocs''.sublist (List.take_sublist ..)).append
          (hdocs''.sublist (List.drop_sublist ..)))
  | less =>
      show Yields HeldAll (lessthan operand value fuel docs)
      refine hlower.bind ?_
      rintro ⟨docs', _ | lower⟩ hdocs'
      · exact hnil
      · exact yields_done (hdocs'.sublist (List.take_sublist ..))
  | lessEqual =>
      show Yields HeldAll (lessthan_equals operand value fuel docs)
      refine (hupper h).bind ?_
      rintro ⟨docs', _ | upper⟩ hdocs'
      · exact hnil
      · exact yields_done (hdocs'.sublist (List.take_sublist ..))
  | greaterEqual =>
      show Yields HeldAll (greaterthan_equals operand value fuel docs)
      refine (hupper h).bind ?_
      rintro ⟨docs', _ | upper⟩ hdocs'
      · exact hnil
      · exact yields_done (hdocs'.sublist (List.drop_sublist ..))
  -- `>` also returns nothing when the value is last
  | greater =>
      show Yields HeldAll (greaterthan operand value fuel docs)
      refine (hupper h).bind ?_
      rintro ⟨docs', _ | upper⟩ hdocs'
      · exact hnil
      · dsimp only
        split
        · exact hnil
        · exact yields_done (hdocs'.sublist (List.drop_sublist ..))
  | equal =>
      show Yields HeldAll (equals operand value fuel docs)
      refine hlower.bind ?_
      rintro ⟨docs', _ | lower⟩ hdocs'
      · exact hnil
      · refine (hupper hdocs').bind ?_
        rintro ⟨docs'', _ | upper⟩ hdocs''
        · exact hnil
        · exact yields_done ((hdocs''.sublist (List.drop_sublist ..)).sublist
            (List.take_sublist ..))

end Fields

/-! ## Evaluation -/

section Evaluate

variable {S : Services} (hparse : ∀ {text j}, S.parse text = some j → j.held = true)
  (sorts : (operand : String) → KeySort (field operand)) {_docs : Option (List Json)}

include hparse

theorem yields_fetchDocuments (hashes : List String) : Yields HeldAll (fetchDocuments S hashes) := by
  induction hashes with
  | nil => exact yields_done nofun
  | cons hash hashes ih =>
      have hfetch : Yields (fun doc => doc.held = true) (fetchDocument S hash) := by
        unfold fetchDocument
        cases hdoc : S.parse ((S.objectData hash).getD "") with
        | none => exact yields_raised
        | some doc => exact yields_done (hparse hdoc)
      unfold fetchDocuments
      refine hfetch.bind ?_
      intro doc hdoc
      refine ih.bind ?_
      intro docs hdocs
      exact yields_done (List.forall_mem_cons.mpr ⟨hdoc, hdocs⟩)

theorem yields_sortDocumentsByOperand (h : ∀ docs ∈ _docs, HeldAll docs) (operand : String)
    (indexes : FieldValueMap) :
    Yields (fun result => HeldAll result.2)
      (sortDocumentsByOperand S sorts _docs operand indexes) := by
  have hcollection : Yields (fun result => HeldAll result.2) (collection S _docs indexes) := by
    unfold collection
    split
    · exact yields_done (h _ rfl)
    · exact (yields_fetchDocuments hparse _).bind fun _ hdocs => yields_done hdocs
  refine hcollection.bind ?_
  rintro ⟨indexes', docs⟩ hdocs
  dsimp only
  split
  · exact yields_done fun doc hdoc => hdocs doc (((sorts operand).perm docs).mem_iff.mp hdoc)
  · exact yields_raised

/-- What an index finds was parsed, so the library holds it. -/
theorem yields_compareIndexed (op : Comparison) (_values : OrderedEdgeMap) (value : String) :
    Yields (fun j : Json => j.held = true) (compareIndexed S op _values value) := by
  have hfetch : ∀ edges : OrderedEdgeMap, Yields (fun j : Json => j.held = true)
      (fetchDocuments S (edges.map (·.2)) >>= fun docs => done (Json.arr docs)) := fun edges =>
    (yields_fetchDocuments hparse _).bind fun _ hdocs => yields_done (Json.held_arr.mpr hdocs)
  have hmessage : Yields (fun j : Json => j.held = true) (done (.str "")) := yields_done rfl
  unfold compareIndexed
  cases op with
  | equal =>
      dsimp only
      split
      · exact hfetch _
      · exact hmessage
  | notEqual | greater | greaterEqual | lessEqual | less =>
      dsimp only
      split
      · exact hmessage
      · exact hfetch _

/-- Every comparison yields a value that the library holds. -/
theorem yields_evaluateComparison (h : ∀ docs ∈ _docs, HeldAll docs) (fuel : Nat)
    (op : Comparison) (indexes : FieldValueMap) (left right : Json) :
    Yields (fun result => result.2.held = true)
      (evaluateComparison S sorts fuel _docs op indexes left right) := by
  have hany : ∀ j, Yields (fun _ => True) (asString j) := fun _ _ _ => trivial
  unfold evaluateComparison
  refine (hany left).bind ?_
  intro operand _
  split
  · refine (hany right).bind ?_
    intro value _
    exact (yields_compareIndexed hparse op _ value).bind fun _ hrs => yields_done hrs
  · refine (yields_sortDocumentsByOperand hparse sorts h operand indexes).bind ?_
    rintro ⟨indexes', docs⟩ hdocs
    dsimp only
    split
    · exact yields_done rfl
    · refine (hany right).bind ?_
      intro value _
      exact (yields_filter op hdocs fuel).bind fun _ hrs => yields_done (Json.held_arr.mpr hrs)

/-- Every filter yields values that the library holds, over collections of such values. -/
theorem yields_evaluateExpression (h : ∀ docs ∈ _docs, HeldAll docs) (fuel : Nat)
    (filter : TreeNode) (indexes : FieldValueMap) :
    Yields (fun result => result.2.held = true)
      (evaluateExpression S sorts fuel _docs filter indexes) := by
  induction filter generalizing indexes with
  | leaf root => exact yields_done rfl
  | node root l r ihl ihr =>
      unfold evaluateExpression
      refine (ihl indexes).bind ?_
      rintro ⟨indexes₁, left⟩ hleft
      refine (ihr indexes₁).bind ?_
      rintro ⟨indexes₂, right⟩ hright
      dsimp only at hleft hright ⊢
      split
      -- a comparison
      case h_1 => exact yields_evaluateComparison hparse sorts h fuel _ indexes₂ left right
      case h_2 =>
          split
          -- a union has the elements of its two sides
          case isTrue =>
              split
              · refine yields_done ?_
                dsimp only
                split
                · exact hright
                · exact hleft
              · unfold union_
                split
                · refine yields_done (Json.held_arr.mpr fun doc hdoc => ?_)
                  rcases mem_union_iff.mp hdoc with hmem | hmem
                  · rcases List.mem_append.mp hmem with hmem | hmem
                    · exact Json.held_arr.mp hleft doc hmem
                    · exact Json.held_arr.mp hright doc hmem
                  · cases hmem
                · exact yields_raised
          -- an intersection has some of the right side
          case isFalse =>
              split
              case isTrue =>
                  split
                  · exact yields_done rfl
                  · unfold intersection
                    split
                    · refine yields_done (Json.held_arr.mpr fun doc hdoc => ?_)
                      exact Json.held_arr.mp hright doc (List.mem_filter.mp hdoc).1
                    · exact yields_raised
              case isFalse => exact yields_done rfl

/-- The answers of the search are values of the library. -/
theorem held_searchBelow {fuel : Nat} {hash expression : String} {docs : Json}
    (h : searchBelow S sorts fuel hash expression = .done docs) : docs.held = true := by
  unfold searchBelow at h
  split at h
  · cases h
  · split at h
    · cases h
    · cases h
      rfl
    · rename_i hevaluated
      cases h
      have hnone : ∀ docs ∈ (none : Option (List Json)), HeldAll docs := by simp
      exact yields_evaluateExpression hparse sorts hnone fuel _ _ _ hevaluated

end Evaluate

end DecentralizedCloud.Storage
