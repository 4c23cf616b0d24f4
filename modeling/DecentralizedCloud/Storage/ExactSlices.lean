import DecentralizedCloud.Storage.Comparison
import DecentralizedCloud.Storage.SearchCalls

/-!
# Slices for a value that occurs

Where the value occurs, four of the six filters cut exactly the documents out of the
sorted array that their comparison asks for (`exact_slice`). They come in their order,
each once, and as they were, but for a `null` that a search has entered for a missing
field.

`Comparison.Reads` says which positions a filter reads: those of its searches and those
of the loop that collects the slice. None of the six reads behind the end of the array
(`reads_inside`), where `_json[i]` would make it longer.
-/

namespace DecentralizedCloud.Storage

open Evaluation

variable (operand value : String)

/-- The document as it was, or with a `null` for the missing field. -/
def UpToNull (doc doc' : Json) : Prop :=
  doc' = doc ∨ doc.get? operand = none ∧ enterField operand doc = some doc'

/-! ## What is read -/

/-- A search of `getlowerIndex` reads the position. -/
def LowerReads (docs : List Json) (i : Nat) : Prop :=
  ∃ c, LowerSearch operand value docs c ∧ c.Reads operand value i

def UpperReads (docs : List Json) (i : Nat) : Prop :=
  ∃ c, UpperSearch operand value docs c ∧ c.Reads operand value i

/-- `getlowerIndex` leaves the array behind as `docs'`, and returns the index. -/
def LowerEnd (docs docs' : List Json) (lower : Nat) : Prop :=
  Returns (fun fuel => getlowerIndex operand value fuel docs) (docs', some lower)

def UpperEnd (docs docs' : List Json) (upper : Nat) : Prop :=
  Returns (fun fuel => getUpperIndex operand value fuel docs) (docs', some upper)

namespace Comparison

/-- The loop that collects the slice of an array of `n` elements reads the position. -/
def Collects (lower upper n i : Nat) : Comparison → Prop
  | equal => lower ≤ i ∧ i ≤ upper
  | notEqual => i < lower ∨ upper + 1 ≤ i ∧ i < n
  | less => i < lower
  | lessEqual => i ≤ upper
  | greaterEqual => upper ≤ i ∧ i < n
  | greater => n - 1 ≠ upper ∧ upper ≤ i ∧ i < n

/-- The filter reads the position: on a search, or when it collects the slice. -/
def Reads (docs : List Json) (i : Nat) (op : Comparison) : Prop :=
  match op with
  | less => LowerReads operand value docs i ∨
      ∃ docs' lower, LowerEnd operand value docs docs' lower ∧ op.Collects lower 0 docs'.length i
  | lessEqual | greaterEqual | greater => UpperReads operand value docs i ∨
      ∃ docs' upper, UpperEnd operand value docs docs' upper ∧ op.Collects 0 upper docs'.length i
  | equal | notEqual => LowerReads operand value docs i ∨
      ∃ docs' lower, LowerEnd operand value docs docs' lower ∧
        (UpperReads operand value docs' i ∨ ∃ docs'' upper,
          UpperEnd operand value docs' docs'' upper ∧ op.Collects lower upper docs''.length i)

end Comparison

/-! ## Arrays that read the same -/

section Same

variable {operand value} {docs docs' : List Json}

theorem SameDocuments.map_field (h : SameDocuments docs docs') (key : String) :
    docs.map (field key) = docs'.map (field key) := by
  induction h with
  | nil => rfl
  | cons hdoc _ ih => rw [List.map_cons, List.map_cons, hdoc.field, ih]

theorem SameDocuments.documents (h : SameDocuments docs docs') :
    ∀ doc ∈ docs', IsDocument doc := by
  induction h with
  | nil => simp
  | cons hdoc _ ih => exact List.forall_mem_cons.mpr ⟨hdoc.document', ih⟩

theorem SameDocuments.sorted (h : SameDocuments docs docs')
    (hsorted : docs.Pairwise fun a b => field operand a ≤ field operand b) :
    docs'.Pairwise fun a b => field operand a ≤ field operand b := by
  have hmap : (docs.map (field operand)).Pairwise (· ≤ ·) := List.pairwise_map.mpr hsorted
  rw [h.map_field operand] at hmap
  exact List.pairwise_map.mp hmap

theorem SameDocuments.occurs (h : SameDocuments docs docs') (hoccurs : Occurs operand value docs) :
    Occurs operand value docs' := by
  have hmem : .str value ∈ docs.map (field operand) := List.mem_map.mpr hoccurs
  rw [h.map_field operand] at hmem
  exact List.mem_map.mp hmem

theorem upToNull_entered (hdocs : ∀ doc ∈ docs, IsDocument doc) (positions : List Nat) :
    List.Forall₂ (UpToNull operand) docs (entered operand docs positions) := by
  refine List.forall₂_iff_get.mpr ⟨(length_entered ..).symm, ?_⟩
  intro i hi hi'
  rcases exists_enterField operand (hdocs docs[i] (List.getElem_mem hi)) with ⟨doc', henter, -⟩
  have hget : (entered operand docs positions)[i] = if i ∈ positions then doc' else docs[i] := by
    simp [entered, henter]
  simp only [List.get_eq_getElem, hget]
  split
  · cases hfield : docs[i].get? operand with
    | none => exact .inr ⟨hfield, henter⟩
    | some v =>
        rw [enterField_of_present operand hfield, Option.some.injEq] at henter
        exact .inl henter.symm
  · exact .inl rfl

end Same

/-! ## A value that occurs -/

section Occurring

variable {operand value} {docs docs' : List Json} {lower upper i : Nat}
  (hdocs : ∀ doc ∈ docs, IsDocument doc) (hlength : docs.length < 2 ^ 31)
  (hsorted : docs.Pairwise fun a b => field operand a ≤ field operand b)
  (hoccurs : Occurs operand value docs)

include hdocs hlength hsorted hoccurs

theorem lowerEnd_spec (h : LowerEnd operand value docs docs' lower) :
    SameDocuments docs docs' ∧ lower < docs.length := by
  rcases getlowerIndex_returns hdocs hlength hsorted hoccurs with ⟨i, hi, hreturns, -⟩
  cases h.unique hreturns
  exact ⟨same_entered operand hdocs _, hi⟩

theorem upperEnd_spec (h : UpperEnd operand value docs docs' upper) :
    SameDocuments docs docs' ∧ upper < docs.length := by
  have hpos : 0 < docs.length := List.length_pos_of_ne_nil (ne_nil_of_occurs hoccurs)
  rcases getUpperIndex_returns hdocs hlength hsorted hoccurs with ⟨i, hreturns, ⟨hi, -⟩, -⟩
  cases h.unique hreturns
  exact ⟨same_entered operand hdocs _, by omega⟩

theorem lowerReads_inside (h : LowerReads operand value docs i) : i < docs.length := by
  rcases h with ⟨c, hsearch, c', hcalls, hwindow, rfl⟩
  rcases first_found hdocs hlength hsorted hoccurs with ⟨_, hfirst⟩
  exact (hfirst.inside c hsearch c' hcalls).read hwindow

theorem upperReads_inside (h : UpperReads operand value docs i) : i < docs.length := by
  rcases h with ⟨c, hsearch, c', hcalls, hwindow, rfl⟩
  rcases last_found hdocs hlength hsorted hoccurs with ⟨_, hlast⟩
  exact (hlast.inside c hsearch c' hcalls).read hwindow

omit hdocs hlength hsorted hoccurs in
theorem collects_inside {n : Nat} {op : Comparison} (hlower : lower < n) (hupper : upper < n)
    (h : op.Collects lower upper n i) : i < n := by
  cases op with
  | equal => exact h.2.trans_lt hupper
  | notEqual =>
      rcases h with hlt | ⟨-, hlt⟩
      · exact hlt.trans hlower
      · exact hlt
  | less => exact h.trans hlower
  | lessEqual => exact h.trans_lt hupper
  | greaterEqual => exact h.2
  | greater => exact h.2.2

/-- The filters read inside of the array. -/
theorem reads_inside {op : Comparison} (h : op.Reads operand value docs i) : i < docs.length := by
  have hpos : 0 < docs.length := List.length_pos_of_ne_nil (ne_nil_of_occurs hoccurs)
  have hlower : ∀ {docs' lower}, LowerEnd operand value docs docs' lower →
      SameDocuments docs docs' ∧ lower < docs.length :=
    lowerEnd_spec hdocs hlength hsorted hoccurs
  have hupper : ∀ {docs' upper}, UpperEnd operand value docs docs' upper →
      SameDocuments docs docs' ∧ upper < docs.length :=
    upperEnd_spec hdocs hlength hsorted hoccurs
  cases op with
  | less =>
      rcases h with hreads | ⟨docs', lower, hend, hcollects⟩
      · exact lowerReads_inside hdocs hlength hsorted hoccurs hreads
      · rcases hlower hend with ⟨hsame, hlt⟩
        rw [← hsame.length_eq] at hcollects
        exact collects_inside hlt hpos hcollects
  | lessEqual | greaterEqual | greater =>
      rcases h with hreads | ⟨docs', upper, hend, hcollects⟩
      · exact upperReads_inside hdocs hlength hsorted hoccurs hreads
      · rcases hupper hend with ⟨hsame, hlt⟩
        rw [← hsame.length_eq] at hcollects
        exact collects_inside hpos hlt hcollects
  | equal | notEqual =>
      rcases h with hreads | ⟨docs', lower, hend, hrest⟩
      · exact lowerReads_inside hdocs hlength hsorted hoccurs hreads
      · -- the second search is through the array that the first one has left
        rcases hlower hend with ⟨hsame, hlt⟩
        have hdocs' := hsame.documents
        have hlength' : docs'.length < 2 ^ 31 := hsame.length_eq ▸ hlength
        rcases hrest with hreads | ⟨docs'', upper, hend', hcollects⟩
        · rw [hsame.length_eq]
          exact upperReads_inside hdocs' hlength' (hsame.sorted hsorted) (hsame.occurs hoccurs) hreads
        · rcases upperEnd_spec hdocs' hlength' (hsame.sorted hsorted) (hsame.occurs hoccurs) hend' with
            ⟨hsame', hlt'⟩
          rw [← hsame'.length_eq, ← hsame.length_eq] at hcollects
          rw [← hsame.length_eq] at hlt'
          exact collects_inside hlt hlt' hcollects

omit hdocs hlength hoccurs in
/-- What is different from the value stands outside of its range. -/
theorem take_drop_range (hisFirst : Bisect.IsFirst (keyAt operand docs) (.str value) lower)
    (hisLast : Bisect.IsLast (keyAt operand docs) (.str value) (docs.length - 1) upper) :
    docs.take lower ++ docs.drop (upper + 1) =
      docs.filter fun doc => field operand doc ≠ .str value := by
  rcases split_first operand value hsorted hisFirst with ⟨hbefore, hbehind⟩
  -- what is left of the range is less than the value
  have hleft : (docs.take lower).filter (fun doc => field operand doc ≠ .str value) =
      docs.take lower := by
    apply List.filter_eq_self.mpr
    intro doc hdoc
    exact decide_eq_true (hbefore doc hdoc).ne
  -- right of it stands what is greater
  have hright : (docs.drop lower).filter (fun doc => field operand doc ≠ .str value) =
      docs.drop (upper + 1) := by
    have hnone : (docs.take lower).filter (fun doc => .str value < field operand doc) = [] := by
      apply List.filter_eq_nil_iff.mpr
      intro doc hdoc
      simpa using (hbefore doc hdoc).le
    calc (docs.drop lower).filter (fun doc => field operand doc ≠ .str value)
        = (docs.drop lower).filter (fun doc => .str value < field operand doc) := by
          apply List.filter_congr
          intro doc hdoc
          rw [decide_eq_decide]
          exact ⟨fun hne => lt_of_le_of_ne (hbehind doc hdoc) hne.symm, fun hlt => hlt.ne'⟩
      _ = (docs.take lower ++ docs.drop lower).filter
            (fun doc => .str value < field operand doc) := by
          rw [List.filter_append, hnone, List.nil_append]
      _ = docs.drop (upper + 1) := by
          rw [List.take_append_drop, drop_last operand value hsorted hisLast]
  calc docs.take lower ++ docs.drop (upper + 1)
      = (docs.take lower ++ docs.drop lower).filter (fun doc => field operand doc ≠ .str value) := by
        rw [List.filter_append, hleft, hright]
    _ = docs.filter fun doc => field operand doc ≠ .str value := by rw [List.take_append_drop]

omit hdocs hlength hoccurs in
/-- Between the bounds of the value stands what the comparison asks for. -/
theorem slice_eq_satisfying {op : Comparison}
    (hop : op ∈ [Comparison.equal, .notEqual, .less, .lessEqual])
    (hisFirst : Bisect.IsFirst (keyAt operand docs) (.str value) lower)
    (hisLast : Bisect.IsLast (keyAt operand docs) (.str value) (docs.length - 1) upper) :
    op.slice lower upper docs = satisfying operand value op docs := by
  cases op with
  | equal => exact drop_take operand value hsorted hisFirst hisLast
  | notEqual => exact take_drop_range hsorted hisFirst hisLast
  | less => exact take_first operand value hsorted hisFirst
  | lessEqual => exact take_last operand value hsorted hisLast
  | greaterEqual | greater => exact absurd hop (by decide)

/-- The filters return the documents that satisfy their comparison, in order and each once, and
read inside of the array. -/
theorem exact_slice {op : Comparison}
    (hop : op ∈ [Comparison.equal, .notEqual, .less, .lessEqual]) :
    (∃ rs, Returns (fun fuel => op.filter operand value fuel docs) rs ∧
        List.Forall₂ (UpToNull operand) (satisfying operand value op docs) rs) ∧
      ∀ i, op.Reads operand value docs i → i < docs.length := by
  refine ⟨?_, fun i => reads_inside hdocs hlength hsorted hoccurs⟩
  rcases filter_eq_slice operand value hdocs hlength (ne_nil_of_occurs hoccurs) hsorted op
    (Nat.lt_succ_self _) hoccurs with ⟨lower, upper, hisFirst, hisLast, hfilter⟩
  refine ⟨_, Returns.of_done (n := docs.length + 1) ?_ hfilter, ?_⟩
  · exact fun _ => op.filter_refines
  · rw [← slice_eq_satisfying hsorted hop hisFirst hisLast]
    exact forall₂_slice (upToNull_entered hdocs _) lower upper op

end Occurring

/-- The rows other than "b". -/
theorem exact_slice_different :
    (∃ rs, Returns (fun fuel => Comparison.notEqual.filter "letter" "b" fuel Sample.rows) rs ∧
        List.Forall₂ (UpToNull "letter") [Sample.row "a"] rs) ∧
      ∀ i, Comparison.notEqual.Reads "letter" "b" Sample.rows i → i < 3 := by
  have hlength : Sample.rows.length < 2 ^ 31 := by decide
  have hrows : satisfying "letter" "b" .notEqual Sample.rows = [Sample.row "a"] := by decide
  rw [← hrows]
  exact exact_slice Sample.isDocument_rows hlength Sample.rows_sorted (by decide) (by decide)

end DecentralizedCloud.Storage
