import DecentralizedCloud.Storage.Search

/-!
# What the filters return

The filters of a sorted collection, case by case: the value occurs in the field
(`filter_of_occurs`), it is absent from it (`filter_of_absent`), or it is below
all fields, and then no filter ever returns (`filter_of_below`).

Where the value occurs, four of the six filters return what their comparison
says. The other two look for the last position of the value and start there, not
behind it: `>=` returns one of the documents that have the value, and `>` returns
one as soon as it returns anything at all (`Answers`).
-/

namespace DecentralizedCloud.Storage

open Evaluation

inductive Comparison where
  | equal
  | notEqual
  | less
  | lessEqual
  | greaterEqual
  | greater
deriving DecidableEq, Repr

namespace Comparison

def symbol : Comparison → String
  | equal => "="
  | notEqual => "<>"
  | less => "<"
  | lessEqual => "<="
  | greaterEqual => ">="
  | greater => ">"

/-- The field stands in the relation to the value. -/
def Holds : Comparison → Json → Json → Prop
  | equal, x, y => x = y
  | notEqual, x, y => x ≠ y
  | less, x, y => x < y
  | lessEqual, x, y => x ≤ y
  | greaterEqual, x, y => y ≤ x
  | greater, x, y => y < x

instance : ∀ (op : Comparison) (x y : Json), Decidable (op.Holds x y)
  | equal, x, y => inferInstanceAs (Decidable (x = y))
  | notEqual, x, y => inferInstanceAs (Decidable (x ≠ y))
  | less, x, y => inferInstanceAs (Decidable (x < y))
  | lessEqual, x, y => inferInstanceAs (Decidable (x ≤ y))
  | greaterEqual, x, y => inferInstanceAs (Decidable (y ≤ x))
  | greater, x, y => inferInstanceAs (Decidable (y < x))

def filter : Comparison → String → String → Nat → List Json → Evaluation (List Json)
  | equal => equals
  | notEqual => not_equals
  | less => lessthan
  | lessEqual => lessthan_equals
  | greaterEqual => greaterthan_equals
  | greater => greaterthan

end Comparison

/-- More fuel changes no result of a comparison. -/
theorem Comparison.filter_refines (op : Comparison) {operand value : String} {fuel : Nat}
    {docs : List Json} :
    Refines (op.filter operand value fuel docs) (op.filter operand value (fuel + 1) docs) := by
  cases op with
  | less =>
      apply Refines.bind getlowerIndex_refines
      intro _
      exact .refl _
  | lessEqual | greaterEqual | greater =>
      apply Refines.bind getUpperIndex_refines
      intro _
      exact .refl _
  | equal | notEqual =>
      apply Refines.bind getlowerIndex_refines
      intro _
      dsimp only
      split
      · exact .refl _
      · apply Refines.bind getUpperIndex_refines
        intro _
        exact .refl _

variable (operand value : String)

/-- The documents that satisfy a comparison. -/
def satisfying (op : Comparison) (docs : List Json) : List Json :=
  docs.filter fun doc => op.Holds (field operand doc) (.str value)

theorem satisfying_greater_eq_nil_iff {docs : List Json} :
    satisfying operand value .greater docs = [] ↔
      ∀ doc ∈ docs, ¬.str value < field operand doc := by
  rw [satisfying, List.filter_eq_nil_iff]
  constructor
  · intro h doc hdoc hlt
    exact h doc hdoc (decide_eq_true hlt)
  · intro h doc hdoc hlt
    exact h doc hdoc (of_decide_eq_true hlt)

/-- One document that has the value, and all documents above. -/
def UpperAnswer (docs ds : List Json) : Prop :=
  ∃ doc ∈ docs, field operand doc = .str value ∧
    ds.Perm (doc :: satisfying operand value .greater docs)

/-- What a filter returns when the value occurs. -/
def Answers (docs ds : List Json) : Comparison → Prop
  | .equal => ds.Perm (satisfying operand value .equal docs)
  | .notEqual => ds.Perm (satisfying operand value .notEqual docs)
  | .less => ds.Perm (satisfying operand value .less docs)
  | .lessEqual => ds.Perm (satisfying operand value .lessEqual docs)
  | .greaterEqual => UpperAnswer operand value docs ds
  | .greater =>
      if satisfying operand value .greater docs = [] then ds = []
      else UpperAnswer operand value docs ds

/-- The order of the collection does not matter for the answer. -/
theorem Answers.of_perm {docs docs' ds : List Json} (hperm : docs.Perm docs') {op : Comparison}
    (h : Answers operand value docs ds op) : Answers operand value docs' ds op := by
  have hfilter : ∀ op, (satisfying operand value op docs).Perm (satisfying operand value op docs') :=
    fun op => hperm.filter _
  have hupper : UpperAnswer operand value docs ds → UpperAnswer operand value docs' ds := by
    rintro ⟨doc, hdoc, hvalue, hds⟩
    exact ⟨doc, hperm.mem_iff.mp hdoc, hvalue, hds.trans ((hfilter .greater).cons doc)⟩
  cases op with
  | equal => exact h.trans (hfilter .equal)
  | notEqual => exact h.trans (hfilter .notEqual)
  | less => exact h.trans (hfilter .less)
  | lessEqual => exact h.trans (hfilter .lessEqual)
  | greaterEqual => exact hupper h
  -- `>` falls back on nothing when no document is greater
  | greater =>
      unfold Answers at h ⊢
      have hnil : satisfying operand value .greater docs = [] ↔
          satisfying operand value .greater docs' = [] := by
        rw [← List.length_eq_zero_iff, (hfilter .greater).length_eq, List.length_eq_zero_iff]
      by_cases hempty : satisfying operand value .greater docs = []
      · rw [if_pos hempty] at h
        rwa [if_pos (hnil.mp hempty)]
      · rw [if_neg hempty] at h
        rw [if_neg (mt hnil.mpr hempty)]
        exact hupper h

/-- A property that says of two others that just one of them holds. -/
theorem filter_append_filter_perm {α : Type} {p q r : α → Prop} [DecidablePred p]
    [DecidablePred q] [DecidablePred r] (hsplit : ∀ x, r x ↔ p x ∨ q x)
    (hdisjoint : ∀ x, p x → ¬q x) (xs : List α) :
    (xs.filter p ++ xs.filter q).Perm (xs.filter r) := by
  have hp : (xs.filter r).filter p = xs.filter p := by
    rw [List.filter_filter]
    apply List.filter_congr
    intro x _
    simpa [hsplit x] using Or.inl
  have hq : (xs.filter r).filter (fun x => !decide (p x)) = xs.filter q := by
    rw [List.filter_filter]
    apply List.filter_congr
    intro x _
    by_cases hpx : p x
    · simp [hpx, hdisjoint x hpx]
    · simp [hpx, hsplit x]
  have hperm := List.filter_append_perm (fun x => decide (p x)) (xs.filter r)
  rwa [hp, hq] at hperm

/-- A comparison that says of two others that one of them holds. -/
theorem perm_satisfying {op op₁ op₂ : Comparison}
    (hsplit : ∀ x y, op.Holds x y ↔ op₁.Holds x y ∨ op₂.Holds x y)
    (hdisjoint : ∀ x y, op₁.Holds x y → ¬op₂.Holds x y) (docs : List Json) :
    (satisfying operand value op₁ docs ++ satisfying operand value op₂ docs).Perm
      (satisfying operand value op docs) := by
  apply filter_append_filter_perm
  · exact fun doc => hsplit (field operand doc) (.str value)
  · exact fun doc => hdisjoint (field operand doc) (.str value)

theorem perm_satisfying_notEqual (docs : List Json) :
    (satisfying operand value .less docs ++ satisfying operand value .greater docs).Perm
      (satisfying operand value .notEqual docs) := by
  apply perm_satisfying
  · intro x y
    exact ne_iff_lt_or_gt
  · intro x y
    exact lt_asymm

theorem perm_satisfying_greaterEqual (docs : List Json) :
    (satisfying operand value .equal docs ++ satisfying operand value .greater docs).Perm
      (satisfying operand value .greaterEqual docs) := by
  apply perm_satisfying
  · intro x y
    exact le_iff_eq_or_lt.trans (or_congr_left eq_comm)
  · rintro x y rfl
    exact lt_irrefl x

/-! ### Slices of the sorted collection -/

namespace Comparison

/-- The positions of the sorted collection that the filter reads on its searches. -/
def positions (docs : List Json) : Comparison → List Nat
  | less => lowerPositions operand value docs
  | lessEqual | greaterEqual | greater => upperPositions operand value docs
  | equal | notEqual => lowerPositions operand value docs ++ upperPositions operand value docs

/-- What the filter cuts out of the collection between the bounds that it has found. -/
def slice (lower upper : Nat) (docs : List Json) : Comparison → List Json
  | equal => (docs.drop lower).take (upper + 1 - lower)
  | notEqual => docs.take lower ++ docs.drop (upper + 1)
  | less => docs.take lower
  | lessEqual => docs.take (upper + 1)
  | greaterEqual => docs.drop upper
  | greater => if docs.length - 1 = upper then [] else docs.drop upper

end Comparison

/-- Slices of arrays that are related position by position are so. -/
theorem forall₂_slice {R : Json → Json → Prop} {docs docs' : List Json}
    (h : List.Forall₂ R docs docs') (lower upper : Nat) (op : Comparison) :
    List.Forall₂ R (op.slice lower upper docs) (op.slice lower upper docs') := by
  cases op with
  | equal => exact List.forall₂_take _ (List.forall₂_drop _ h)
  | notEqual => exact List.rel_append (List.forall₂_take _ h) (List.forall₂_drop _ h)
  | less | lessEqual => exact List.forall₂_take _ h
  | greaterEqual => exact List.forall₂_drop _ h
  | greater =>
      simp only [Comparison.slice, h.length_eq]
      by_cases hend : docs'.length - 1 = upper
      · rw [if_pos hend, if_pos hend]
        exact .nil
      · rw [if_neg hend, if_neg hend]
        exact List.forall₂_drop _ h

section Sorted

variable {docs : List Json} {fuel : Nat} (hdocs : ∀ doc ∈ docs, IsDocument doc)
  (hlength : docs.length < 2 ^ 31) (hne : docs ≠ [])
  (hsorted : docs.Pairwise fun a b => field operand a ≤ field operand b)

include hne hsorted

/-- What lies between the bounds of the value. -/
theorem answers_slice {lower upper : Nat}
    (hisFirst : Bisect.IsFirst (keyAt operand docs) (.str value) lower)
    (hisLast : Bisect.IsLast (keyAt operand docs) (.str value) (docs.length - 1) upper)
    (op : Comparison) : Answers operand value docs (op.slice lower upper docs) op := by
  have hupper : UpperAnswer operand value docs (docs.drop upper) := by
    rcases drop_upper operand value hsorted hisLast hne with ⟨doc, hdoc, hvalue, hdrop⟩
    rw [hdrop]
    exact ⟨doc, hdoc, hvalue, .refl _⟩
  cases op with
  | less =>
      rw [Comparison.slice, take_first operand value hsorted hisFirst]
      exact .refl _
  | equal =>
      rw [Comparison.slice, drop_take operand value hsorted hisFirst hisLast]
      exact .refl _
  | notEqual =>
      rw [Comparison.slice, take_first operand value hsorted hisFirst,
        drop_last operand value hsorted hisLast]
      exact perm_satisfying_notEqual operand value docs
  | lessEqual =>
      rw [Comparison.slice, take_last operand value hsorted hisLast]
      exact .refl _
  | greaterEqual => exact hupper
  | greater =>
      -- this one alone looks whether its upper bound is the end
      have hpos : 0 < docs.length := List.length_pos_of_ne_nil hne
      have hend : docs.length - 1 = upper ↔ satisfying operand value .greater docs = [] := by
        show _ ↔ (docs.filter fun doc => decide (.str value < field operand doc)) = []
        have hbound := hisLast.1.1
        rw [← drop_last operand value hsorted hisLast, List.drop_eq_nil_iff]
        omega
      unfold Answers Comparison.slice
      by_cases hempty : satisfying operand value .greater docs = []
      · rw [if_pos hempty, if_pos (hend.mpr hempty)]
      · rw [if_neg hempty, if_neg (mt hend.mp hempty)]
        exact hupper

include hdocs hlength

/-- The filter of a value that occurs returns a slice, of documents whose field the searches
have entered. -/
theorem filter_eq_slice (op : Comparison) (hfuel : docs.length < fuel)
    (h : Occurs operand value docs) :
    ∃ lower upper, Bisect.IsFirst (keyAt operand docs) (.str value) lower ∧
      Bisect.IsLast (keyAt operand docs) (.str value) (docs.length - 1) upper ∧
      op.filter operand value fuel docs = .done
        (op.slice lower upper (entered operand docs (op.positions operand value docs))) := by
  rcases getlowerIndex_of_occurs operand value hdocs [] hlength hne hsorted hfuel h with
    ⟨lower, hlower, hgetLower, hisFirst⟩
  rcases getUpperIndex_of_occurs operand value hdocs [] hlength hne hsorted hfuel h with
    ⟨upper, hgetUpper, hisLast⟩
  -- a second search runs on the documents into which the first one has entered the field
  rcases getUpperIndex_of_occurs operand value hdocs (lowerPositions operand value docs) hlength hne
    hsorted hfuel h with ⟨upper', hgetUpper', hisLast'⟩
  rw [entered_nil, List.nil_append] at hgetLower hgetUpper
  cases op with
  | less =>
      exact ⟨lower, upper, hisFirst, hisLast, by simp [Comparison.filter, lessthan, hgetLower,
        Comparison.slice, Comparison.positions]⟩
  | equal =>
      exact ⟨lower, upper', hisFirst, hisLast', by simp [Comparison.filter, equals, hgetLower,
        hgetUpper', Comparison.slice, Comparison.positions]⟩
  | notEqual =>
      exact ⟨lower, upper', hisFirst, hisLast', by simp [Comparison.filter, not_equals, hgetLower,
        hgetUpper', Comparison.slice, Comparison.positions]⟩
  | lessEqual =>
      exact ⟨lower, upper, hisFirst, hisLast, by simp [Comparison.filter, lessthan_equals,
        hgetUpper, Comparison.slice, Comparison.positions]⟩
  | greaterEqual =>
      exact ⟨lower, upper, hisFirst, hisLast, by simp [Comparison.filter, greaterthan_equals,
        hgetUpper, Comparison.slice, Comparison.positions]⟩
  | greater =>
      refine ⟨lower, upper, hisFirst, hisLast, ?_⟩
      have hslice : ∀ docs : List Json, Comparison.greater.slice lower upper docs =
          if docs.length - 1 = upper then [] else docs.drop upper := fun _ => rfl
      have hpositions : Comparison.greater.positions operand value docs =
          upperPositions operand value docs := rfl
      show greaterthan operand value fuel docs = _
      rw [hslice, hpositions, greaterthan, hgetUpper, done_bind]
      dsimp only
      split <;> rfl

/-- The filter of a value that occurs. -/
theorem filter_of_occurs (op : Comparison) (hfuel : docs.length < fuel)
    (h : Occurs operand value docs) :
    ∃ ds rs, op.filter operand value fuel docs = .done rs ∧ SameDocuments ds rs ∧
      Answers operand value docs ds op := by
  rcases filter_eq_slice operand value hdocs hlength hne hsorted op hfuel h with
    ⟨lower, upper, hisFirst, hisLast, hfilter⟩
  exact ⟨_, _, hfilter, forall₂_slice (same_entered operand hdocs _) lower upper op,
    answers_slice operand value hne hsorted hisFirst hisLast op⟩

/-- The filter of a value that does not occur, above some document. -/
theorem filter_of_absent (op : Comparison) (hfuel : docs.length < fuel)
    (hbelow : ¬Below operand value docs) (h : ¬Occurs operand value docs) :
    op.filter operand value fuel docs = .done [] := by
  rcases getlowerIndex_of_absent operand value hdocs [] hlength hne hsorted hfuel hbelow h with
    ⟨docs₁, hlower⟩
  rcases getUpperIndex_of_absent operand value hdocs [] hlength hne hsorted hfuel hbelow h with
    ⟨docs₂, hupper⟩
  rw [entered_nil] at hlower hupper
  cases op <;> simp [Comparison.filter, equals, not_equals, lessthan, lessthan_equals,
    greaterthan_equals, greaterthan, hlower, hupper]

/-- The filter of a value below all documents. -/
theorem filter_of_below (op : Comparison) (hbelow : Below operand value docs) :
    op.filter operand value fuel docs = .pending := by
  have hlower : getlowerIndex operand value fuel (entered operand docs []) = .pending :=
    getlowerIndex_of_below operand value hdocs [] hlength hne hsorted hbelow
  have hupper : getUpperIndex operand value fuel (entered operand docs []) = .pending :=
    getUpperIndex_of_below operand value hdocs [] hlength hne hsorted hbelow
  rw [entered_nil] at hlower hupper
  cases op <;> simp [Comparison.filter, equals, not_equals, lessthan, lessthan_equals,
    greaterthan_equals, greaterthan, hlower, hupper]

end Sorted

end DecentralizedCloud.Storage
