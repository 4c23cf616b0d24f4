import DecentralizedCloud.Storage.Search
import Mathlib.Logic.Relation
import Mathlib.Order.Bounds.Basic

/-!
# The calls of a search

The binary search calls itself with the part of its window that is left. Here every
such call is a state, `SearchCall`, and what follows it a step, `SearchCall.next`: so
it can be said of every call which position it reads, and that the window which it
hands on has been computed without wrapping around (`SearchCall.Inside`).

Only a value below all fields leads out of the array: left of position 0 the search
never ends, and for all other values it stays inside (`search_inside_iff`). The loops
that look for the ends of a range search for a value that occurs, so all their
searches stay inside, and every window that they go on with has the end that is
sought (`ends_found`).
-/

namespace DecentralizedCloud.Storage

open Evaluation

/-! ## Calls -/

/-- A call of `getSearchIndex`: the array as it is then, and the window. -/
structure SearchCall where
  docs : List Json
  beginIndex : Nat
  endIndex : Nat

namespace SearchCall

def middlevalue (c : SearchCall) : Nat := c.beginIndex + (c.endIndex - c.beginIndex) / 2

/-- The search through the whole array. -/
def whole (docs : List Json) : SearchCall := ⟨docs, 0, decrement docs.length⟩

variable (operand value : String)

def result (c : SearchCall) (fuel : Nat) : Evaluation (List Json × Option (Nat × Nat × Nat)) :=
  getSearchIndex operand value fuel c.docs c.beginIndex c.endIndex

/-- The call that a call makes in turn. -/
def next (c : SearchCall) : Option SearchCall :=
  if c.beginIndex ≤ c.endIndex then
    match readField operand c.docs c.middlevalue with
    | .done (docs, found) =>
        if found = .str value then none
        else if .str value < found then some ⟨docs, c.beginIndex, decrement c.middlevalue⟩
        else some ⟨docs, increment c.middlevalue, c.endIndex⟩
    | .pending | .raised => none
  else none

/-- A call leads to another one, over any number of calls. -/
abbrev Calls : SearchCall → SearchCall → Prop :=
  Relation.ReflTransGen fun c c' => c.next operand value = some c'

/-- On the way of the call the position is read. -/
def Reads (c : SearchCall) (i : Nat) : Prop :=
  ∃ c', c.Calls operand value c' ∧ c'.beginIndex ≤ c'.endIndex ∧ c'.middlevalue = i

/-- The call ends with a window, and a position in it that has the value. -/
def Finds (c : SearchCall) (docs : List Json) (first middle last : Nat) : Prop :=
  Returns (c.result operand value) (docs, some (first, middle, last))

/-- The call reads an array of `n` elements inside of it, and the ends of the window that it
hands on are not wrapped around. -/
structure Inside (n : Nat) (c : SearchCall) : Prop where
  size : c.docs.length = n
  read : c.beginIndex ≤ c.endIndex → c.middlevalue < n
  window : ∀ c', c.next operand value = some c' →
    c'.beginIndex = c.beginIndex ∧ c'.endIndex + 1 = c.middlevalue ∨
      c'.beginIndex = c.middlevalue + 1 ∧ c'.endIndex = c.endIndex

variable {operand value} {c c' : SearchCall}

/-- What a call comes to is what the call comes to that it makes. -/
theorem result_of_next (h : c.next operand value = some c') (fuel : Nat) :
    c.result operand value (fuel + 1) = c'.result operand value fuel := by
  unfold next at h
  split at h
  case isTrue hwindow =>
      rw [result, getSearchIndex, if_pos hwindow]
      dsimp only
      rw [show c.beginIndex + (c.endIndex - c.beginIndex) / 2 = c.middlevalue from rfl]
      split at h
      case h_1 docs found hread =>
          rw [hread, done_bind]
          dsimp only
          split at h
          -- the call that finds the value makes no other
          case isTrue => cases h
          case isFalse hne =>
              rw [if_neg hne]
              split at h
              -- left half
              case isTrue hlt =>
                  cases h
                  rw [if_pos hlt]
                  rfl
              -- right half
              case isFalse hge =>
                  cases h
                  rw [if_neg hge]
                  rfl
      case h_2 | h_3 => cases h
  case isFalse => cases h

end SearchCall

/-- The searches of `getlowerIndex`: through the array, and then in what is left of the position
that has been found, until that is the first one. -/
inductive LowerSearch (operand value : String) (docs : List Json) : SearchCall → Prop where
  | start : LowerSearch operand value docs (.whole docs)
  | again {c : SearchCall} {docs' : List Json} {first middle last : Nat}
      (h : LowerSearch operand value docs c) (hfound : c.Finds operand value docs' first middle last)
      (hne : middle ≠ 0) : LowerSearch operand value docs ⟨docs', first, decrement middle⟩

/-- The searches of `getUpperIndex`. -/
inductive UpperSearch (operand value : String) (docs : List Json) : SearchCall → Prop where
  | start : UpperSearch operand value docs (.whole docs)
  | again {c : SearchCall} {docs' : List Json} {first middle last : Nat}
      (h : UpperSearch operand value docs c)
      (hfound : c.Finds operand value docs' first middle last) :
      UpperSearch operand value docs ⟨docs', increment middle, last⟩

section Loops

variable {operand value : String} {docs : List Json} {fuel n first m last : Nat}

/-- A turn of the first loop goes on with the search that `LowerSearch.again` names. -/
theorem lowerLoop_succ (hne : m ≠ 0) :
    lowerLoop operand value fuel (n + 1) docs first m =
      ((SearchCall.mk docs first (decrement m)).result operand value fuel >>= fun found =>
        match found.2 with
        | some (first, middle, _) => lowerLoop operand value fuel n found.1 first middle
        | none => .done (found.1, m)) := by
  rw [lowerLoop, if_neg hne]
  rfl

theorem upperLoop_succ :
    upperLoop operand value fuel (n + 1) docs m last =
      ((SearchCall.mk docs (increment m) last).result operand value fuel >>= fun found =>
        match found.2 with
        | some (_, middle, last) => upperLoop operand value fuel n found.1 middle last
        | none => .done (found.1, m)) := rfl

end Loops

/-! ## Inside of the array -/

/-- A call in an array of which some fields have been read. -/
structure SearchCall.Within (operand : String) (docs : List Json) (c : SearchCall) : Prop where
  array : ∃ positions, c.docs = entered operand docs positions
  endIndex : c.endIndex < docs.length

section Within

variable {operand value : String} {docs : List Json} {c c' : SearchCall}

namespace SearchCall

theorem within_whole (hlength : docs.length < 2 ^ 31) (hne : docs ≠ []) :
    (whole docs).Within operand docs := by
  have hpos : 0 < docs.length := List.length_pos_of_ne_nil hne
  refine ⟨⟨[], (entered_nil operand docs).symm⟩, ?_⟩
  have hdec : (whole docs).endIndex = docs.length - 1 := decrement_of_pos (by omega) hlength
  rw [hdec]
  omega

variable (hdocs : ∀ doc ∈ docs, IsDocument doc) (hlength : docs.length < 2 ^ 31)

include hdocs hlength

/-- The call that follows stays within the array, unless the value is below the first field. -/
theorem Within.next (hzero : ¬.str value < keyAt operand docs 0) (h : c.Within operand docs) :
    c.Inside operand value docs.length ∧
      ∀ c', c.next operand value = some c' → c'.Within operand docs := by
  rcases h with ⟨⟨positions, hpositions⟩, hend⟩
  have hsize : c.docs.length = docs.length := by rw [hpositions, length_entered]
  have hmiddle : c.beginIndex ≤ c.endIndex → c.middlevalue < docs.length := by
    intro hwindow
    unfold middlevalue
    omega
  have hstep : ∀ c', c.next operand value = some c' →
      (c'.beginIndex = c.beginIndex ∧ c'.endIndex + 1 = c.middlevalue ∨
        c'.beginIndex = c.middlevalue + 1 ∧ c'.endIndex = c.endIndex) ∧
        c'.Within operand docs := by
    intro c' hnext
    unfold SearchCall.next at hnext
    split at hnext
    case isFalse => cases hnext
    case isTrue hwindow =>
        have hlt := hmiddle hwindow
        rw [hpositions, readField_entered operand hdocs positions hlt] at hnext
        dsimp only at hnext
        split at hnext
        case isTrue => cases hnext
        case isFalse =>
            split at hnext
            case isTrue hleft =>
                cases hnext
                -- the value is left of a field that is not the first one
                have hne : c.middlevalue ≠ 0 := by
                  intro heq
                  rw [heq] at hleft
                  exact hzero hleft
                have hdec := decrement_of_pos hne (by omega)
                refine ⟨.inl ⟨rfl, ?_⟩, ⟨_, rfl⟩, ?_⟩
                · dsimp only
                  omega
                · dsimp only
                  omega
            case isFalse =>
                cases hnext
                have hinc : increment c.middlevalue = c.middlevalue + 1 :=
                  increment_of_lt (by omega)
                exact ⟨.inr ⟨hinc, rfl⟩, ⟨_, rfl⟩, hend⟩
  exact ⟨⟨hsize, hmiddle, fun c' hnext => (hstep c' hnext).1⟩, fun c' hnext => (hstep c' hnext).2⟩

/-- So do all calls that follow. -/
theorem Within.calls (hzero : ¬.str value < keyAt operand docs 0) (h : c.Within operand docs)
    (hcalls : c.Calls operand value c') :
    c'.Within operand docs ∧ c'.Inside operand value docs.length := by
  have hwithin : c'.Within operand docs := by
    induction hcalls with
    | refl => exact h
    | tail _ hnext ih => exact (ih.next hdocs hlength hzero).2 _ hnext
  exact ⟨hwithin, (hwithin.next hdocs hlength hzero).1⟩

/-- A search within the array ends, and it ends as bisection does. -/
theorem Within.outcome (hzero : ¬.str value < keyAt operand docs 0) (h : c.Within operand docs)
    (hkey : Bisect.Ascending (keyAt operand docs) c.endIndex) :
    ∃ docs', (∃ positions, docs' = entered operand docs positions) ∧
      ((∃ first middle last, c.Finds operand value docs' first middle last ∧
          Bisect.Correct (keyAt operand docs) (.str value) c.beginIndex c.endIndex
            (.found first middle last)) ∨
        Returns (c.result operand value) (docs', none) ∧
          Bisect.Correct (keyAt operand docs) (.str value) c.beginIndex c.endIndex .absent) := by
  rcases h with ⟨⟨positions, hpositions⟩, hend⟩
  have hsearch := fun fuel hfuel => getSearchIndex_eq operand value hdocs hlength positions
    c.beginIndex c.endIndex fuel hend hfuel
  have hcorrect := Bisect.search_correct hkey (.str value) c.beginIndex
  have hreturns : ∀ {found}, (∀ fuel, c.endIndex + 1 - c.beginIndex < fuel →
      getSearchIndex operand value fuel (entered operand docs positions) c.beginIndex c.endIndex =
        .done found) → Returns (c.result operand value) found := by
    intro found hall
    refine ⟨c.endIndex + 1 - c.beginIndex + 1, ?_⟩
    intro fuel hle
    rw [result, hpositions]
    exact hall fuel hle
  cases houtcome : Bisect.search (keyAt operand docs) (.str value) c.beginIndex c.endIndex with
  | found first middle last =>
      rw [houtcome] at hsearch hcorrect
      exact ⟨_, ⟨_, rfl⟩, .inl ⟨first, middle, last, hreturns hsearch, hcorrect⟩⟩
  | absent =>
      rw [houtcome] at hsearch hcorrect
      exact ⟨_, ⟨_, rfl⟩, .inr ⟨hreturns hsearch, hcorrect⟩⟩
  | escaped =>
      rw [houtcome] at hcorrect
      exact absurd hcorrect.2 hzero

theorem Within.found (hzero : ¬.str value < keyAt operand docs 0) (h : c.Within operand docs)
    (hkey : Bisect.Ascending (keyAt operand docs) c.endIndex) {docs' : List Json}
    {first middle last : Nat} (hfound : c.Finds operand value docs' first middle last) :
    (∃ positions, docs' = entered operand docs positions) ∧
      Bisect.Correct (keyAt operand docs) (.str value) c.beginIndex c.endIndex
        (.found first middle last) := by
  rcases h.outcome hdocs hlength hzero hkey with
    ⟨docs'', hpositions, ⟨first', middle', last', hfinds, hcorrect⟩ | ⟨hnone, -⟩⟩
  · cases hfinds.unique hfound
    exact ⟨hpositions, hcorrect⟩
  · cases hnone.unique hfound

end SearchCall

end Within

/-! ## The search through the whole array -/

section Whole

variable (operand value : String) (docs : List Json)

/-- The search ends, with nothing exactly when the value does not occur, and on the way it is
always inside of the array. -/
structure SearchesInside : Prop where
  ends : ∃ docs' found, Returns ((SearchCall.whole docs).result operand value) (docs', found) ∧
    docs'.length = docs.length ∧ (found = none ↔ ¬Occurs operand value docs)
  inside : ∀ c, (SearchCall.whole docs).Calls operand value c →
    c.Inside operand value docs.length

/-- `getlowerIndex` returns the first position of the value; its searches are inside of the
array, and the window that they go on with has this position. -/
structure FirstFound (i : Nat) : Prop where
  returns : ∃ docs', Returns (fun fuel => getlowerIndex operand value fuel docs) (docs', some i)
  least : IsLeast {j | docs[j]?.map (field operand) = some (.str value)} i
  inside : ∀ c, LowerSearch operand value docs c → ∀ c', c.Calls operand value c' →
    c'.Inside operand value docs.length
  window : ∀ c, LowerSearch operand value docs c → ∀ docs' first middle last,
    c.Finds operand value docs' first middle last →
      (first ≤ i ∧ i ≤ middle ∧ middle ≤ last) ∧ (middle = 0 ∨ decrement middle + 1 = middle)

/-- The same for the last position and `getUpperIndex`. -/
structure LastFound (i : Nat) : Prop where
  returns : ∃ docs', Returns (fun fuel => getUpperIndex operand value fuel docs) (docs', some i)
  greatest : IsGreatest {j | docs[j]?.map (field operand) = some (.str value)} i
  inside : ∀ c, UpperSearch operand value docs c → ∀ c', c.Calls operand value c' →
    c'.Inside operand value docs.length
  window : ∀ c, UpperSearch operand value docs c → ∀ docs' first middle last,
    c.Finds operand value docs' first middle last →
      (first ≤ middle ∧ middle ≤ i ∧ i ≤ last) ∧ increment middle = middle + 1

variable {operand value docs}

theorem occurs_iff :
    Occurs operand value docs ↔ ∃ i < docs.length, keyAt operand docs i = .str value := by
  constructor
  · rintro ⟨doc, hdoc, hvalue⟩
    rcases List.getElem_of_mem hdoc with ⟨i, hi, rfl⟩
    exact ⟨i, hi, by rw [keyAt_eq operand hi, hvalue]⟩
  · rintro ⟨i, hi, hvalue⟩
    rw [keyAt_eq operand hi] at hvalue
    exact ⟨_, List.getElem_mem hi, hvalue⟩

variable (hdocs : ∀ doc ∈ docs, IsDocument doc) (hlength : docs.length < 2 ^ 31)
  (hsorted : docs.Pairwise fun a b => field operand a ≤ field operand b)

include hdocs hlength hsorted

/-- Left of position 0 the search does not end. -/
theorem not_searchesInside_of_below (hne : docs ≠ []) (hbelow : Below operand value docs) :
    ¬SearchesInside operand value docs := by
  rintro ⟨⟨docs', found, ⟨n, hn⟩, -⟩, -⟩
  have hpending : getSearchIndex operand value n (entered operand docs []) 0
      (decrement (entered operand docs []).length) = .pending :=
    getSearchIndex_all_of_below operand value hdocs [] hlength hne hsorted hbelow
  rw [entered_nil] at hpending
  have hdone := hn n (Nat.le_refl n)
  rw [SearchCall.result, SearchCall.whole, hpending] at hdone
  cases hdone

/-- The search through an array is inside of it if and only if the value is not below all of
its elements. -/
theorem search_inside_iff (hne : docs ≠ []) :
    SearchesInside operand value docs ↔ ¬Below operand value docs := by
  have hkey := keyAt_ascending operand hsorted
  constructor
  · intro hinside hbelow
    exact not_searchesInside_of_below hdocs hlength hsorted hne hbelow hinside
  · intro hbelow
    have hzero := mt (below_iff_keyAt_zero operand value hne hkey).mpr hbelow
    have hwithin : (SearchCall.whole docs).Within operand docs :=
      SearchCall.within_whole hlength hne
    -- the whole array is the window of the first call
    have hend : (SearchCall.whole docs).endIndex = docs.length - 1 := by
      have hpos : 0 < docs.length := List.length_pos_of_ne_nil hne
      exact decrement_of_pos (by omega) hlength
    refine ⟨?_, fun c hcalls => (hwithin.calls hdocs hlength hzero hcalls).2⟩
    -- the value is found, or it does not occur
    rcases hwithin.outcome hdocs hlength hzero (hend ▸ hkey) with
      ⟨docs', ⟨positions, rfl⟩, ⟨first, middle, last, hfinds, hcorrect⟩ | ⟨hnone, hcorrect⟩⟩
    · refine ⟨_, _, hfinds, length_entered .., iff_of_false (by simp) (not_not.mpr ?_)⟩
      rcases hcorrect with ⟨hbounds, hvalue, -, -⟩
      have hlt := hwithin.endIndex
      exact occurs_iff.mpr ⟨middle, by omega, hvalue⟩
    · refine ⟨_, _, hnone, length_entered .., iff_of_true rfl ?_⟩
      rw [occurs_iff]
      rintro ⟨i, hi, hvalue⟩
      exact hcorrect i (Nat.zero_le i) (by omega) hvalue

/-! ## The ends of a range -/

omit hdocs hlength hsorted in
theorem ne_nil_of_occurs (h : Occurs operand value docs) : docs ≠ [] := by
  rintro rfl
  rcases h with ⟨doc, hdoc, -⟩
  cases hdoc

omit hdocs hlength in
theorem not_lt_keyAt_zero (h : Occurs operand value docs) :
    ¬.str value < keyAt operand docs 0 := by
  rcases occurs_iff.mp h with ⟨i, hi, hvalue⟩
  rw [← hvalue]
  exact not_lt.mpr (keyAt_ascending operand hsorted 0 i (Nat.zero_le i) (by omega))

omit hdocs hlength hsorted in
theorem mem_positions_iff {i : Nat} :
    docs[i]?.map (field operand) = some (.str value) ↔
      i < docs.length ∧ keyAt operand docs i = .str value := by
  constructor
  · intro h
    rcases Option.map_eq_some_iff.mp h with ⟨doc, hdoc, hvalue⟩
    rcases List.getElem?_eq_some_iff.mp hdoc with ⟨hi, rfl⟩
    exact ⟨hi, by rw [keyAt_eq operand hi, hvalue]⟩
  · rintro ⟨hi, hvalue⟩
    rw [keyAt_eq operand hi] at hvalue
    rw [List.getElem?_eq_getElem hi, Option.map_some, hvalue]

/-- Every search of `getlowerIndex` is within the array, and left of its window all fields are
below the value. -/
theorem LowerSearch.within (h : Occurs operand value docs) {c : SearchCall}
    (hsearch : LowerSearch operand value docs c) :
    c.Within operand docs ∧ ∀ i < c.beginIndex, keyAt operand docs i < .str value := by
  induction hsearch with
  | start =>
      refine ⟨SearchCall.within_whole hlength (ne_nil_of_occurs h), ?_⟩
      intro i hi
      cases hi
  | @again c docs' first middle last hsearch hfound hne ih =>
      rcases ih with ⟨hwithin, hbelow⟩
      have hend := hwithin.endIndex
      have hkey := (keyAt_ascending operand hsorted).mono (show c.endIndex ≤ _ by omega)
      rcases hwithin.found hdocs hlength (not_lt_keyAt_zero hsorted h) hkey hfound with
        ⟨hpositions, hbounds, -, hcut, -⟩
      have hdec := decrement_of_pos hne (by omega)
      refine ⟨⟨hpositions, ?_⟩, ?_⟩
      · dsimp only
        omega
      · intro i hi
        by_cases hin : c.beginIndex ≤ i
        · exact hcut i hin hi
        · exact hbelow i (Nat.not_le.mp hin)

/-- Every search of `getUpperIndex` is within the array, and right of its window all fields are
above the value. -/
theorem UpperSearch.within (h : Occurs operand value docs) {c : SearchCall}
    (hsearch : UpperSearch operand value docs c) :
    c.Within operand docs ∧
      ∀ i, c.endIndex < i → i < docs.length → .str value < keyAt operand docs i := by
  induction hsearch with
  | start =>
      have hne := ne_nil_of_occurs h
      have hwithin : (SearchCall.whole docs).Within operand docs :=
        SearchCall.within_whole hlength hne
      have hend : (SearchCall.whole docs).endIndex = docs.length - 1 := by
        have hpos : 0 < docs.length := List.length_pos_of_ne_nil hne
        exact decrement_of_pos (by omega) hlength
      refine ⟨hwithin, ?_⟩
      intro i hi hlast
      omega
  | @again c docs' first middle last hsearch hfound ih =>
      rcases ih with ⟨hwithin, habove⟩
      have hend := hwithin.endIndex
      have hkey := (keyAt_ascending operand hsorted).mono (show c.endIndex ≤ _ by omega)
      rcases hwithin.found hdocs hlength (not_lt_keyAt_zero hsorted h) hkey hfound with
        ⟨hpositions, hbounds, -, -, hcut⟩
      refine ⟨⟨hpositions, by dsimp only; omega⟩, ?_⟩
      intro i hi hlast
      -- in the last window the search has cut this off, outside of it an earlier one
      by_cases hin : i ≤ c.endIndex
      · exact hcut i hi hin
      · exact habove i (Nat.not_le.mp hin) hlast

theorem getlowerIndex_returns (h : Occurs operand value docs) :
    ∃ i, i < docs.length ∧ Returns (fun fuel => getlowerIndex operand value fuel docs)
      (entered operand docs (lowerPositions operand value docs), some i) ∧
      Bisect.IsFirst (keyAt operand docs) (.str value) i := by
  rcases getlowerIndex_of_occurs operand value hdocs [] hlength (ne_nil_of_occurs h) hsorted
    (Nat.lt_succ_self _) h with ⟨i, hi, hget, hisFirst⟩
  rw [entered_nil, List.nil_append] at hget
  refine ⟨i, hi, Returns.of_done (n := docs.length + 1) ?_ hget, hisFirst⟩
  exact fun _ => getlowerIndex_refines

theorem getUpperIndex_returns (h : Occurs operand value docs) :
    ∃ i, Returns (fun fuel => getUpperIndex operand value fuel docs)
        (entered operand docs (upperPositions operand value docs), some i) ∧
      Bisect.IsLast (keyAt operand docs) (.str value) (docs.length - 1) i := by
  rcases getUpperIndex_of_occurs operand value hdocs [] hlength (ne_nil_of_occurs h) hsorted
    (Nat.lt_succ_self _) h with ⟨i, hget, hisLast⟩
  rw [entered_nil, List.nil_append] at hget
  refine ⟨i, Returns.of_done (n := docs.length + 1) ?_ hget, hisLast⟩
  exact fun _ => getUpperIndex_refines

/-- `getlowerIndex` finds the first position of a value that occurs. -/
theorem first_found (h : Occurs operand value docs) : ∃ i, FirstFound operand value docs i := by
  have hzero := not_lt_keyAt_zero hsorted h
  rcases getlowerIndex_returns hdocs hlength hsorted h with ⟨i, hi, hreturns, hisFirst⟩
  refine ⟨i, ⟨_, hreturns⟩, ⟨?_, ?_⟩, ?_, ?_⟩
  -- the position is the smallest one of the value
  · exact mem_positions_iff.mpr ⟨hi, hisFirst.1⟩
  · intro j hj
    rcases mem_positions_iff.mp hj with ⟨-, hvalue⟩
    by_contra hlt
    exact (hisFirst.2 j (Nat.not_le.mp hlt)).ne hvalue
  -- every call is within the array
  · intro c hsearch c' hcalls
    exact ((hsearch.within hdocs hlength hsorted h).1.calls hdocs hlength hzero hcalls).2
  -- what each search finds is at or right of the position, and its window reaches it
  · intro c hsearch docs' first middle last hfound
    rcases hsearch.within hdocs hlength hsorted h with ⟨hwithin, hbelow⟩
    have hend := hwithin.endIndex
    have hkey := (keyAt_ascending operand hsorted).mono (show c.endIndex ≤ _ by omega)
    rcases hwithin.found hdocs hlength hzero hkey hfound with ⟨-, hbounds, hvalue, hcut, -⟩
    refine ⟨⟨?_, ?_, hbounds.2.2.1⟩, ?_⟩
    · by_contra hlt
      have hcutoff : keyAt operand docs i < .str value := by
        by_cases hin : c.beginIndex ≤ i
        · exact hcut i hin (Nat.not_le.mp hlt)
        · exact hbelow i (Nat.not_le.mp hin)
      exact hcutoff.ne hisFirst.1
    · by_contra hlt
      exact (hisFirst.2 middle (Nat.not_le.mp hlt)).ne hvalue
    · by_cases hpos : middle = 0
      · exact .inl hpos
      · have hdec := decrement_of_pos hpos (by omega)
        exact .inr (by omega)

/-- `getUpperIndex` finds the last position of a value that occurs. -/
theorem last_found (h : Occurs operand value docs) : ∃ i, LastFound operand value docs i := by
  have hzero := not_lt_keyAt_zero hsorted h
  have hpos : 0 < docs.length := List.length_pos_of_ne_nil (ne_nil_of_occurs h)
  rcases getUpperIndex_returns hdocs hlength hsorted h with ⟨i, hreturns, ⟨hi, hvalue⟩, hisLast⟩
  refine ⟨i, ⟨_, hreturns⟩, ⟨?_, ?_⟩, ?_, ?_⟩
  -- the position is the greatest one of the value
  · exact mem_positions_iff.mpr ⟨by omega, hvalue⟩
  · intro j hj
    rcases mem_positions_iff.mp hj with ⟨hlt, hvalue'⟩
    by_contra hgt
    exact (hisLast j (Nat.not_le.mp hgt) (by omega)).ne' hvalue'
  -- every call is within the array
  · intro c hsearch c' hcalls
    exact ((hsearch.within hdocs hlength hsorted h).1.calls hdocs hlength hzero hcalls).2
  -- what each search finds is at or left of the position, and its window reaches it
  · intro c hsearch docs' first middle last hfound
    rcases hsearch.within hdocs hlength hsorted h with ⟨hwithin, habove⟩
    have hend := hwithin.endIndex
    have hkey := (keyAt_ascending operand hsorted).mono (show c.endIndex ≤ _ by omega)
    rcases hwithin.found hdocs hlength hzero hkey hfound with ⟨-, hbounds, hvalue', -, hcut⟩
    refine ⟨⟨hbounds.2.1, ?_, ?_⟩, increment_of_lt (by omega)⟩
    · by_contra hgt
      exact (hisLast middle (Nat.not_le.mp hgt) (by omega)).ne' hvalue'
    · by_contra hgt
      have hcutoff : .str value < keyAt operand docs i := by
        by_cases hin : i ≤ c.endIndex
        · exact hcut i (Nat.not_le.mp hgt) hin
        · exact habove i (Nat.not_le.mp hin) (by omega)
      exact hcutoff.ne' hvalue

/-- For a value that occurs, both loops come to the ends of its range. -/
theorem ends_found (h : Occurs operand value docs) :
    (∃ i, FirstFound operand value docs i) ∧ ∃ i, LastFound operand value docs i :=
  ⟨first_found hdocs hlength hsorted h, last_found hdocs hlength hsorted h⟩

end Whole

namespace Sample

def row (value : String) : Json := .obj [("letter", .str value)]

/-- Three rows, two of them with one value. -/
def rows : List Json := [row "a", row "b", row "b"]

theorem isDocument_rows : ∀ doc ∈ rows, IsDocument doc := by
  intro doc hdoc
  simp only [rows, List.mem_cons, List.not_mem_nil, or_false] at hdoc
  rcases hdoc with rfl | rfl | rfl <;> exact ⟨_, rfl⟩

theorem rows_sorted : rows.Pairwise fun a b => field "letter" a ≤ field "letter" b := by decide

end Sample

/-- A value that occurs. -/
theorem search_inside_iff_known : SearchesInside "letter" "b" Sample.rows := by
  have hlength : Sample.rows.length < 2 ^ 31 := by decide
  exact (search_inside_iff Sample.isDocument_rows hlength Sample.rows_sorted (by decide)).mpr
    (by decide)

/-- A value below all rows. -/
theorem search_left_of_rows :
    (∀ doc ∈ Sample.rows, IsDocument doc) ∧ Sample.rows.length < 2 ^ 31 ∧ Sample.rows ≠ [] ∧
      (Sample.rows.Pairwise fun a b => field "letter" a ≤ field "letter" b) ∧
      ¬SearchesInside "letter" "A" Sample.rows := by
  have hlength : Sample.rows.length < 2 ^ 31 := by decide
  have hne : Sample.rows ≠ [] := by decide
  refine ⟨Sample.isDocument_rows, hlength, hne, Sample.rows_sorted, ?_⟩
  exact not_searchesInside_of_below Sample.isDocument_rows hlength Sample.rows_sorted hne
    (by decide)

/-- The range of "b". -/
theorem ends_found_b :
    (∃ i, FirstFound "letter" "b" Sample.rows i) ∧ ∃ i, LastFound "letter" "b" Sample.rows i := by
  have hlength : Sample.rows.length < 2 ^ 31 := by decide
  exact ends_found Sample.isDocument_rows hlength Sample.rows_sorted (by decide)

end DecentralizedCloud.Storage
