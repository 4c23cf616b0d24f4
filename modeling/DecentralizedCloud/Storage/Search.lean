import DecentralizedCloud.Common.JsonOrder
import DecentralizedCloud.Lib.Bisect
import DecentralizedCloud.Lib.KeySort
import Mathlib.Data.List.Forall2

/-!
# Searching a sorted collection

The filters of a storage node: a collection of documents that is sorted by a
field is searched for a value, and a slice of it is the answer.

Two habits of the library shape the code. Reading a field of a document through
`_json[i][operand]` enters the field as `null` where it is missing, and reading
an element behind the end fills the array up with `null`. So the documents that
come out need not be those that went in, but they read the same (`SameFields`).
And positions are 32-bit numbers: left of position 0 the window ends at
`2 ^ 32 - 1`, and the search for a value below all fields goes on forever
(`getSearchIndex_of_lt`).

A call that may go on forever is run with fuel. `Evaluation.pending` says that it
has not ended yet.
-/

namespace DecentralizedCloud.Storage

/-! ## Calls that may raise or go on forever -/

inductive Evaluation (α : Type) where
  /-- the fuel has run out -/
  | pending
  | raised
  | done (a : α)
deriving DecidableEq

namespace Evaluation

variable {α β : Type}

def bind : Evaluation α → (α → Evaluation β) → Evaluation β
  | pending, _ => pending
  | raised, _ => raised
  | done a, f => f a

instance : Monad Evaluation where
  pure := done
  bind := bind

/-- A value that may have raised. -/
def ofOption : Option α → Evaluation α
  | some a => done a
  | none => raised

@[simp] theorem pending_bind (f : α → Evaluation β) : (pending >>= f) = pending := rfl

@[simp] theorem raised_bind (f : α → Evaluation β) : (raised >>= f) = raised := rfl

@[simp] theorem done_bind (a : α) (f : α → Evaluation β) : (done a >>= f) = f a := rfl

@[simp] theorem pure_eq (a : α) : (pure a : Evaluation α) = done a := rfl

theorem bind_eq_done {call : Evaluation α} {f : α → Evaluation β} {b : β} :
    (call >>= f) = done b ↔ ∃ a, call = done a ∧ f a = done b := by
  cases call <;> simp

/-- With more fuel a call that is pending may end, and one that has ended is the same. -/
def Refines (a b : Evaluation α) : Prop := a = pending ∨ a = b

theorem Refines.refl (a : Evaluation α) : Refines a a := .inr rfl

theorem Refines.bind {a b : Evaluation α} {f g : α → Evaluation β} (h : Refines a b)
    (hfg : ∀ x, Refines (f x) (g x)) : Refines (a >>= f) (b >>= g) := by
  rcases h with rfl | rfl
  · exact .inl rfl
  · cases a with
    | pending | raised => exact .refl _
    | done x => exact hfg x

/-- The call ends with `a` when it has fuel enough. -/
def Returns (call : Nat → Evaluation α) (a : α) : Prop := ∃ n, ∀ fuel, n ≤ fuel → call fuel = done a

theorem Returns.unique {call : Nat → Evaluation α} {a b : α} (ha : Returns call a)
    (hb : Returns call b) : a = b := by
  rcases ha with ⟨n, hn⟩
  rcases hb with ⟨m, hm⟩
  have h := (hn (max n m) (Nat.le_max_left n m)).symm.trans (hm (max n m) (Nat.le_max_right n m))
  cases h
  rfl

theorem Returns.of_done {call : Nat → Evaluation α}
    (hmono : ∀ fuel, Refines (call fuel) (call (fuel + 1))) {n : Nat} {a : α}
    (h : call n = done a) : Returns call a := by
  refine ⟨n, ?_⟩
  intro fuel hle
  induction fuel, hle using Nat.le_induction with
  | base => exact h
  | succ fuel _ ih =>
      rcases hmono fuel with hpending | heq
      · rw [ih] at hpending
        cases hpending
      · rw [← heq, ih]

end Evaluation

open Evaluation

/-! ## Fields of a document -/

/-- The field of a document; a missing one reads as `null`. -/
def field (operand : String) (doc : Json) : Json := (doc.get? operand).getD .null

/-- What reading a field leaves of a document: a missing field is entered, and `null`
becomes an object. -/
def enterField (operand : String) : Json → Option Json
  | .obj members =>
      some (.obj (if (members.lookup operand).isSome then members
        else Json.insertMember operand .null members))
  | .null => some (.obj [(operand, .null)])
  | .bool _ | .num _ | .str _ | .arr _ => none

/-- `_json[i][operand]` -/
def readField (operand : String) (docs : List Json) (i : Nat) : Evaluation (List Json × Json) :=
  let docs := docs ++ List.replicate (i + 1 - docs.length) .null
  match docs[i]?.bind (enterField operand) with
  | some doc => .done (docs.set i doc, field operand doc)
  | none => .raised

/-! ## The binary search -/

def increment (n : Nat) : Nat := (n + 1) % 2 ^ 32
def decrement (n : Nat) : Nat := (n + (2 ^ 32 - 1)) % 2 ^ 32

variable (operand value : String)

/-- The array as the search leaves it, and the window in which the middle has the value. -/
def getSearchIndex : Nat → List Json → Nat → Nat →
    Evaluation (List Json × Option (Nat × Nat × Nat))
  | 0, _, _, _ => .pending
  | fuel + 1, docs, beginIndex, endIndex =>
      if beginIndex ≤ endIndex then do
        let middlevalue := beginIndex + (endIndex - beginIndex) / 2
        let (docs, found) ← readField operand docs middlevalue
        if found = .str value then .done (docs, some (beginIndex, middlevalue, endIndex))
        -- the second comparison reads the same field again
        else if .str value < found then
          getSearchIndex fuel docs beginIndex (decrement middlevalue)
        else getSearchIndex fuel docs (increment middlevalue) endIndex
      else .done (docs, none)

/-- The loop of `getlowerIndex`: on from the window that starts at `first`, with the value
at `lastfoundat`. -/
def lowerLoop (fuel : Nat) : Nat → List Json → Nat → Nat → Evaluation (List Json × Nat)
  | 0, _, _, _ => .pending
  | n + 1, docs, first, lastfoundat =>
      if lastfoundat = 0 then .done (docs, lastfoundat)
      else do
        let (docs, result) ←
          getSearchIndex operand value fuel docs first (decrement lastfoundat)
        match result with
        | some (first, middle, _) => lowerLoop fuel n docs first middle
        | none => .done (docs, lastfoundat)

/-- The first position of the value; `none` stands for -1. -/
def getlowerIndex (fuel : Nat) (docs : List Json) : Evaluation (List Json × Option Nat) := do
  let (docs, result) ←
    getSearchIndex operand value fuel docs 0 (decrement docs.length)
  match result with
  | some (first, middle, _) => do
      let (docs, lastfoundat) ← lowerLoop operand value fuel fuel docs first middle
      return (docs, some lastfoundat)
  | none => return (docs, none)

def upperLoop (fuel : Nat) : Nat → List Json → Nat → Nat → Evaluation (List Json × Nat)
  | 0, _, _, _ => .pending
  | n + 1, docs, lastfoundat, last => do
      let (docs, result) ←
        getSearchIndex operand value fuel docs (increment lastfoundat) last
      match result with
      | some (_, middle, last) => upperLoop fuel n docs middle last
      | none => .done (docs, lastfoundat)

/-- The last position of the value; `none` stands for -1. -/
def getUpperIndex (fuel : Nat) (docs : List Json) : Evaluation (List Json × Option Nat) := do
  let (docs, result) ←
    getSearchIndex operand value fuel docs 0 (decrement docs.length)
  match result with
  | some (_, middle, last) => do
      let (docs, lastfoundat) ← upperLoop operand value fuel fuel docs middle last
      return (docs, some lastfoundat)
  | none => return (docs, none)

/-! ## The filters -/

def not_equals (fuel : Nat) (docs : List Json) : Evaluation (List Json) := do
  let (docs, lower) ← getlowerIndex operand value fuel docs
  match lower with
  | none => return []
  | some lower => do
      let (docs, upper) ← getUpperIndex operand value fuel docs
      -- without an upper index the second loop starts at 0
      return docs.take lower ++ docs.drop (match upper with
        | some upper => upper + 1
        | none => 0)

def lessthan (fuel : Nat) (docs : List Json) : Evaluation (List Json) := do
  let (docs, lower) ← getlowerIndex operand value fuel docs
  match lower with
  | none => return []
  | some lower => return docs.take lower

def lessthan_equals (fuel : Nat) (docs : List Json) : Evaluation (List Json) := do
  let (docs, upper) ← getUpperIndex operand value fuel docs
  match upper with
  | none => return []
  | some upper => return docs.take (upper + 1)

def greaterthan_equals (fuel : Nat) (docs : List Json) : Evaluation (List Json) := do
  let (docs, upper) ← getUpperIndex operand value fuel docs
  match upper with
  | none => return []
  | some upper => return docs.drop upper

/-- Nothing when the value is at the end, else from the last position of the value on. -/
def greaterthan (fuel : Nat) (docs : List Json) : Evaluation (List Json) := do
  let (docs, upper) ← getUpperIndex operand value fuel docs
  match upper with
  | none => return []
  | some upper => if docs.length - 1 = upper then return [] else return docs.drop upper

def equals (fuel : Nat) (docs : List Json) : Evaluation (List Json) := do
  let (docs, lower) ← getlowerIndex operand value fuel docs
  match lower with
  | none => return []
  | some lower => do
      let (docs, upper) ← getUpperIndex operand value fuel docs
      match upper with
      | none => return []
      | some upper => return (docs.drop lower).take (upper + 1 - lower)

/-! ## More fuel -/

section Fuel

variable {operand value : String} {fuel : Nat} {docs : List Json}

/-- More fuel changes no result of a search. -/
theorem getSearchIndex_refines {first last : Nat} :
    Refines (getSearchIndex operand value fuel docs first last)
      (getSearchIndex operand value (fuel + 1) docs first last) := by
  induction fuel generalizing docs first last with
  | zero => exact .inl rfl
  | succ fuel ih =>
      unfold getSearchIndex
      split
      · apply Refines.bind (.refl _)
        intro _
        dsimp only
        split
        · exact .refl _
        · split
          · exact ih
          · exact ih
      · exact .refl _

theorem lowerLoop_refines {n first m : Nat} :
    Refines (lowerLoop operand value fuel n docs first m)
      (lowerLoop operand value (fuel + 1) (n + 1) docs first m) := by
  induction n generalizing docs first m with
  | zero => exact .inl rfl
  | succ n ih =>
      unfold lowerLoop
      split
      · exact .refl _
      · apply Refines.bind getSearchIndex_refines
        intro _
        dsimp only
        split
        · exact ih
        · exact .refl _

theorem upperLoop_refines {n m last : Nat} :
    Refines (upperLoop operand value fuel n docs m last)
      (upperLoop operand value (fuel + 1) (n + 1) docs m last) := by
  induction n generalizing docs m last with
  | zero => exact .inl rfl
  | succ n ih =>
      unfold upperLoop
      apply Refines.bind getSearchIndex_refines
      intro _
      dsimp only
      split
      · exact ih
      · exact .refl _

theorem getlowerIndex_refines :
    Refines (getlowerIndex operand value fuel docs) (getlowerIndex operand value (fuel + 1) docs) := by
  unfold getlowerIndex
  apply Refines.bind getSearchIndex_refines
  intro _
  dsimp only
  split
  · exact Refines.bind lowerLoop_refines fun _ => .refl _
  · exact .refl _

theorem getUpperIndex_refines :
    Refines (getUpperIndex operand value fuel docs) (getUpperIndex operand value (fuel + 1) docs) := by
  unfold getUpperIndex
  apply Refines.bind getSearchIndex_refines
  intro _
  dsimp only
  split
  · exact Refines.bind upperLoop_refines fun _ => .refl _
  · exact .refl _

end Fuel

/-! ## Documents that read the same -/

def IsDocument (doc : Json) : Prop := ∃ members, doc = .obj members

structure SameFields (doc doc' : Json) : Prop where
  document : IsDocument doc
  document' : IsDocument doc'
  field : ∀ key, field key doc = field key doc'

theorem SameFields.refl {doc : Json} (h : IsDocument doc) : SameFields doc doc :=
  ⟨h, h, fun _ => rfl⟩

theorem SameFields.trans {doc doc' doc'' : Json} (h : SameFields doc doc')
    (h' : SameFields doc' doc'') : SameFields doc doc'' :=
  ⟨h.document, h'.document', fun key => (h.field key).trans (h'.field key)⟩

/-- Reading a field of a document leaves one that reads the same. -/
theorem exists_enterField {doc : Json} (h : IsDocument doc) :
    ∃ doc', enterField operand doc = some doc' ∧ SameFields doc doc' := by
  rcases h with ⟨members, rfl⟩
  refine ⟨_, rfl, ⟨members, rfl⟩, ⟨_, rfl⟩, ?_⟩
  intro key
  cases hlookup : members.lookup operand with
  | some v => simp
  | none =>
      simp only [Option.isSome_none, Bool.false_eq_true, if_false, field, Json.get?,
        Json.lookup_insertMember]
      split
      case isTrue h => simp [h, hlookup]
      case isFalse => rfl

/-- Collections whose documents read the same, one by one. -/
abbrev SameDocuments (docs docs' : List Json) : Prop := List.Forall₂ SameFields docs docs'

theorem SameDocuments.refl {docs : List Json} (h : ∀ doc ∈ docs, IsDocument doc) :
    SameDocuments docs docs :=
  List.forall₂_same.mpr fun doc hdoc => .refl (h doc hdoc)

theorem SameDocuments.trans {docs docs' docs'' : List Json} (h : SameDocuments docs docs')
    (h' : SameDocuments docs' docs'') : SameDocuments docs docs'' := by
  induction h generalizing docs'' with
  | nil => exact h'
  | cons hdoc _ ih =>
      cases h' with
      | cons hdoc' hdocs' => exact .cons (hdoc.trans hdoc') (ih hdocs')

/-- The value of the field at a position. -/
def keyAt (docs : List Json) (i : Nat) : Json := field operand (docs.getD i .null)

/-- A collection in which the field has been read at some positions. -/
def entered (docs : List Json) (positions : List Nat) : List Json :=
  docs.mapIdx fun i doc => if i ∈ positions then (enterField operand doc).getD doc else doc

@[simp] theorem length_entered (docs : List Json) (positions : List Nat) :
    (entered operand docs positions).length = docs.length := List.length_mapIdx

theorem getElem?_entered (docs : List Json) (positions : List Nat) (i : Nat) :
    (entered operand docs positions)[i]? = docs[i]?.map fun doc =>
      if i ∈ positions then (enterField operand doc).getD doc else doc := List.getElem?_mapIdx

theorem getElem?_entered_of_lt {docs : List Json} (positions : List Nat) {i : Nat}
    (hi : i < docs.length) {doc' : Json} (henter : enterField operand docs[i] = some doc') :
    (entered operand docs positions)[i]? = some (if i ∈ positions then doc' else docs[i]) := by
  rw [getElem?_entered, List.getElem?_eq_getElem hi, Option.map_some, henter, Option.getD_some]

@[simp] theorem entered_nil (docs : List Json) : entered operand docs [] = docs := by
  apply List.ext_getElem?
  intro i
  simp [getElem?_entered]

/-- A field that is there stays as it is. -/
theorem enterField_of_present {doc v : Json} (h : doc.get? operand = some v) :
    enterField operand doc = some doc := by
  cases doc with
  | obj members =>
      have hlookup : members.lookup operand = some v := h
      simp [enterField, hlookup]
  | null | bool | num | str | arr => cases h

theorem enterField_enterField {doc doc' : Json} (h : IsDocument doc)
    (henter : enterField operand doc = some doc') : enterField operand doc' = some doc' := by
  rcases h with ⟨members, rfl⟩
  cases henter
  by_cases hsome : (members.lookup operand).isSome = true
  · simp [enterField, hsome]
  · simp [enterField, hsome, Json.lookup_insertMember]

theorem same_entered {docs : List Json} (hdocs : ∀ doc ∈ docs, IsDocument doc)
    (positions : List Nat) : SameDocuments docs (entered operand docs positions) := by
  refine List.forall₂_iff_get.mpr ⟨(length_entered ..).symm, ?_⟩
  intro i hi hi'
  have hdoc := hdocs docs[i] (List.getElem_mem hi)
  rcases exists_enterField operand hdoc with ⟨doc', henter, hsame⟩
  have hget : (entered operand docs positions)[i] = if i ∈ positions then doc' else docs[i] := by
    simp [entered, henter]
  simp only [List.get_eq_getElem, hget]
  split
  · exact hsame
  · exact .refl hdoc

/-- Reading the field of an element enters it there, and nowhere else. -/
theorem readField_entered {docs : List Json} (hdocs : ∀ doc ∈ docs, IsDocument doc)
    (positions : List Nat) {i : Nat} (hi : i < docs.length) :
    readField operand (entered operand docs positions) i =
      .done (entered operand docs (positions ++ [i]), keyAt operand docs i) := by
  have hdoc := hdocs docs[i] (List.getElem_mem hi)
  rcases exists_enterField operand hdoc with ⟨doc', henter, hsame⟩
  have hfill : i + 1 - (entered operand docs positions).length = 0 := by
    rw [length_entered]
    omega
  have hget := getElem?_entered_of_lt operand positions hi henter
  have henter' : enterField operand (if i ∈ positions then doc' else docs[i]) = some doc' := by
    split
    · exact enterField_enterField operand hdoc henter
    · exact henter
  have hkey : field operand doc' = keyAt operand docs i := by
    rw [← hsame.field]
    simp [keyAt, hi]
  -- the field is entered at `i`, and the other elements stay as they are
  have hset : (entered operand docs positions).set i doc' =
      entered operand docs (positions ++ [i]) := by
    apply List.ext_getElem?
    intro j
    by_cases hij : i = j
    · subst hij
      rw [getElem?_entered_of_lt operand _ hi henter, List.getElem?_set_self (by simpa using hi),
        if_pos (by simp)]
    · have hji : j ≠ i := fun h => hij h.symm
      rw [List.getElem?_set_ne hij, getElem?_entered, getElem?_entered]
      simp [hji]
  simp only [readField, hfill, List.replicate_zero, List.append_nil, hget, Option.bind_some, henter',
    hset, hkey]

/-! ## The search among sorted documents -/

theorem increment_of_lt {n : Nat} (h : n < 2 ^ 31) : increment n = n + 1 :=
  Nat.mod_eq_of_lt (by omega)

theorem decrement_of_pos {n : Nat} (hpos : n ≠ 0) (h : n < 2 ^ 31) : decrement n = n - 1 := by
  unfold decrement
  omega

/-- One more round of the search, inside of the collection. -/
theorem getSearchIndex_succ {docs : List Json} (hdocs : ∀ doc ∈ docs, IsDocument doc)
    (positions : List Nat) (fuel : Nat) {first last : Nat} (hwindow : first ≤ last)
    (hlast : last < docs.length) :
    getSearchIndex operand value (fuel + 1) (entered operand docs positions) first last =
      let middle := first + (last - first) / 2
      let docs' := entered operand docs (positions ++ [middle])
      if keyAt operand docs middle = .str value then .done (docs', some (first, middle, last))
      else if .str value < keyAt operand docs middle then
        getSearchIndex operand value fuel docs' first (decrement middle)
      else getSearchIndex operand value fuel docs' (increment middle) last := by
  have hmiddle : first + (last - first) / 2 < docs.length := by omega
  rw [getSearchIndex, if_pos hwindow]
  simp [readField_entered operand hdocs positions hmiddle]

/-- The search does what bisection of the field's values does, unless that escapes. -/
theorem getSearchIndex_eq {docs : List Json} (hdocs : ∀ doc ∈ docs, IsDocument doc)
    (hlength : docs.length < 2 ^ 31) (positions : List Nat) (first last fuel : Nat)
    (hlast : last < docs.length) (hfuel : last + 1 - first < fuel) :
    match Bisect.search (keyAt operand docs) (.str value) first last with
    | .found first' middle last' =>
        getSearchIndex operand value fuel (entered operand docs positions) first last =
          .done (entered operand docs
            (positions ++ Bisect.probes (keyAt operand docs) (.str value) first last),
            some (first', middle, last'))
    | .absent =>
        getSearchIndex operand value fuel (entered operand docs positions) first last =
          .done (entered operand docs
            (positions ++ Bisect.probes (keyAt operand docs) (.str value) first last), none)
    | .escaped => True := by
  induction fuel generalizing first last positions with
  | zero => omega
  | succ fuel ih =>
      by_cases hempty : last < first
      -- the window is empty
      case pos =>
          rw [Bisect.search, if_pos hempty, Bisect.probes, if_pos hempty, List.append_nil]
          dsimp only
          rw [getSearchIndex, if_neg (by omega)]
      case neg =>
          rw [getSearchIndex_succ operand value hdocs positions fuel (Nat.not_lt.mp hempty) hlast,
            Bisect.search, if_neg hempty, Bisect.probes, if_neg hempty]
          dsimp only
          by_cases hfound : keyAt operand docs (first + (last - first) / 2) = .str value
          · rw [if_pos hfound, if_pos hfound, if_pos hfound]
          · rw [if_neg hfound, if_neg hfound, if_neg hfound]
            -- the value is left of the middle, unless the index wraps there
            by_cases hleft : .str value < keyAt operand docs (first + (last - first) / 2)
            · rw [if_pos hleft, if_pos hleft, if_pos hleft]
              by_cases hzero : first + (last - first) / 2 = 0
              · rw [if_pos hzero]
                trivial
              · rw [if_neg hzero, if_neg hzero, decrement_of_pos hzero (by omega),
                  List.append_cons positions _ (Bisect.probes ..)]
                exact ih _ first (first + (last - first) / 2 - 1) (by omega) (by omega)
            -- the value is right of the middle
            · rw [if_neg hleft, if_neg hleft, if_neg hleft, increment_of_lt (by omega),
                List.append_cons positions _ (Bisect.probes ..)]
              exact ih _ (first + (last - first) / 2 + 1) last hlast (by omega)

/-! ### Left of the first document -/

/-- From the middle of the machine numbers on there is nothing but what the search itself
has filled the array up with. -/
def Padded (docs : List Json) : Prop :=
  ∀ i, 2 ^ 31 - 1 ≤ i → ∀ doc ∈ docs[i]?, doc = .null ∨ doc = .obj [(operand, .null)]

theorem padded_of_length {docs : List Json} (h : docs.length < 2 ^ 31) : Padded operand docs := by
  intro i hi doc hdoc
  have hnone : docs[i]? = none := List.getElem?_eq_none (by omega)
  rw [hnone] at hdoc
  cases hdoc

/-- Reading at a negative `int` pads the array and returns `null`. -/
theorem readField_of_padded {docs : List Json} (h : Padded operand docs) {i : Nat}
    (hi : 2 ^ 31 - 1 ≤ i) :
    ∃ docs', readField operand docs i = .done (docs', .null) ∧ Padded operand docs' := by
  -- the array behind its end reads as `null`
  have hfilled : Padded operand (docs ++ List.replicate (i + 1 - docs.length) .null) := by
    intro j hj doc hdoc
    rw [List.getElem?_append] at hdoc
    split at hdoc
    case isTrue => exact h j hj doc hdoc
    case isFalse =>
        rw [List.getElem?_replicate] at hdoc
        split at hdoc <;> simp_all
  unfold readField
  generalize hdocs : docs ++ List.replicate (i + 1 - docs.length) .null = docs' at hfilled
  have hlength : i < docs'.length := by
    rw [← hdocs, List.length_append, List.length_replicate]
    omega
  have henter : docs'[i]?.bind (enterField operand) = some (.obj [(operand, .null)]) := by
    rw [List.getElem?_eq_getElem hlength]
    rcases hfilled i hi docs'[i] (List.getElem?_eq_getElem hlength) with hdoc | hdoc <;>
      simp [hdoc, enterField]
  refine ⟨docs'.set i (.obj [(operand, .null)]), ?_, ?_⟩
  · dsimp only
    rw [henter]
    simp [field, Json.get?]
  · intro j hj doc hdoc
    rw [List.getElem?_set] at hdoc
    split at hdoc
    case isTrue => simp_all
    case isFalse => exact hfilled j hj doc hdoc

/-- Once its window reaches to the last machine number, the search runs from `null` to
`null` without end. -/
theorem getSearchIndex_of_padded {docs : List Json} (h : Padded operand docs) {first : Nat}
    (hfirst : first = 0 ∨ 2 ^ 31 ≤ first ∧ first < 2 ^ 32) (fuel : Nat) :
    getSearchIndex operand value fuel docs first (2 ^ 32 - 1) = .pending := by
  induction fuel generalizing docs first with
  | zero => rfl
  | succ fuel ih =>
      have hmiddle : 2 ^ 31 - 1 ≤ first + (2 ^ 32 - 1 - first) / 2 := by omega
      rcases readField_of_padded operand h hmiddle with ⟨docs', hread, hpadded⟩
      rw [getSearchIndex, if_pos (by omega)]
      dsimp only
      rw [hread]
      have hne : Json.null ≠ .str value := nofun
      have hge : ¬Json.str value < .null := by
        rw [Json.lt_iff_order]
        nofun
      rw [done_bind, if_neg hne, if_neg hge]
      apply ih hpadded
      unfold increment
      omega

/-- The search for a value below all elements does not end. -/
theorem getSearchIndex_of_lt {docs : List Json} (hdocs : ∀ doc ∈ docs, IsDocument doc)
    (hlength : docs.length < 2 ^ 31) (positions : List Nat) {last : Nat}
    (hlast : last < docs.length) (hkey : Bisect.Ascending (keyAt operand docs) last)
    (hbelow : .str value < keyAt operand docs 0) (fuel : Nat) :
    getSearchIndex operand value fuel (entered operand docs positions) 0 last = .pending := by
  induction fuel generalizing last positions with
  | zero => rfl
  | succ fuel ih =>
      have hmiddle : .str value < keyAt operand docs (0 + (last - 0) / 2) :=
        hbelow.trans_le (hkey 0 _ (Nat.zero_le _) (by omega))
      rw [getSearchIndex_succ operand value hdocs positions fuel (Nat.zero_le last) hlast]
      dsimp only
      rw [if_neg hmiddle.ne', if_pos hmiddle]
      by_cases hzero : 0 + (last - 0) / 2 = 0
      · rw [hzero]
        have hpadded : Padded operand (entered operand docs (positions ++ [0])) :=
          padded_of_length operand (by rwa [length_entered])
        exact getSearchIndex_of_padded operand value hpadded (.inl rfl) fuel
      · rw [decrement_of_pos hzero (by omega)]
        exact ih _ (by omega) (hkey.mono (by omega))

/-! ### First and last position -/

/-- The loop of `getlowerIndex` ends at the first position of the value. -/
theorem lowerLoop_isFirst {docs : List Json} (hdocs : ∀ doc ∈ docs, IsDocument doc)
    (hlength : docs.length < 2 ^ 31) (positions : List Nat) {first m fuel n : Nat}
    (hm : m < docs.length) (hkey : Bisect.Ascending (keyAt operand docs) m)
    (hvalue : keyAt operand docs m = .str value)
    (hbelow : ∀ i, i < first → keyAt operand docs i < .str value)
    (hfuel : docs.length < fuel) (hn : m < n) :
    ∃ i, i < docs.length ∧
      lowerLoop operand value fuel n (entered operand docs positions) first m =
        .done (entered operand docs (positions ++
          Bisect.lowerProbes (keyAt operand docs) (.str value) first m), i) ∧
      Bisect.IsFirst (keyAt operand docs) (.str value) i := by
  induction n generalizing first m positions with
  | zero => omega
  | succ n ih =>
      rw [Bisect.lowerProbes]
      -- nothing is left of the first element
      by_cases hzero : m = 0
      · rw [if_pos hzero, List.append_nil]
        refine ⟨m, hm, by rw [lowerLoop, if_pos hzero], hvalue, ?_⟩
        intro i hi
        omega
      · rw [if_neg hzero, lowerLoop, if_neg hzero, decrement_of_pos hzero (by omega)]
        have hsearch := getSearchIndex_eq operand value hdocs hlength positions first (m - 1) fuel
          (by omega) (by omega)
        -- left of `m` the value is found again, or `m` is the first position
        rcases Bisect.first_step hkey hvalue hbelow hzero with
          ⟨first', m', last', hfound, hlt, hvalue', hbelow'⟩ | ⟨habsent, hisFirst⟩
        · rw [hfound] at hsearch ⊢
          dsimp only at hsearch ⊢
          rw [hsearch, done_bind, if_pos hlt, ← List.append_assoc]
          exact ih _ (by omega) (hkey.mono hlt.le) hvalue' hbelow' (by omega)
        · rw [habsent] at hsearch ⊢
          dsimp only at hsearch ⊢
          rw [hsearch, done_bind, List.append_nil]
          exact ⟨m, hm, rfl, hisFirst⟩

/-- The loop of `getUpperIndex` ends at the last position of the value. -/
theorem upperLoop_isLast {docs : List Json} (hdocs : ∀ doc ∈ docs, IsDocument doc)
    (hlength : docs.length < 2 ^ 31) (positions : List Nat) {m last fuel n : Nat} (hle : m ≤ last)
    (hlast : last < docs.length) (hkey : Bisect.Ascending (keyAt operand docs) (docs.length - 1))
    (hvalue : keyAt operand docs m = .str value)
    (habove : ∀ i, last < i → i ≤ docs.length - 1 → .str value < keyAt operand docs i)
    (hfuel : docs.length < fuel) (hn : docs.length - m < n) :
    ∃ i, upperLoop operand value fuel n (entered operand docs positions) m last =
        .done (entered operand docs (positions ++
          Bisect.upperProbes (keyAt operand docs) (.str value) m last), i) ∧
      Bisect.IsLast (keyAt operand docs) (.str value) (docs.length - 1) i := by
  induction n generalizing m last positions with
  | zero => omega
  | succ n ih =>
      rw [Bisect.upperProbes, upperLoop, increment_of_lt (by omega)]
      have hsearch := getSearchIndex_eq operand value hdocs hlength positions (m + 1) last fuel hlast
        (by omega)
      -- right of `m` the value is found again, or `m` is the last position
      rcases Bisect.last_step hkey hvalue hle (by omega) habove with
        ⟨first', m', last', hfound, hlt, hle', hlast', hvalue', habove'⟩ | ⟨habsent, hisLast⟩
      · rw [hfound] at hsearch ⊢
        dsimp only at hsearch ⊢
        rw [hsearch, done_bind, if_pos ⟨hlt, hle', hlast'⟩, ← List.append_assoc]
        exact ih _ hle' (by omega) hvalue' habove' (by omega)
      · rw [habsent] at hsearch ⊢
        dsimp only at hsearch ⊢
        rw [hsearch, done_bind, List.append_nil]
        exact ⟨m, rfl, hisLast⟩

/-- The positions that `getlowerIndex` reads. -/
def lowerPositions (docs : List Json) : List Nat :=
  Bisect.probes (keyAt operand docs) (.str value) 0 (docs.length - 1) ++
    match Bisect.search (keyAt operand docs) (.str value) 0 (docs.length - 1) with
    | .found first middle _ => Bisect.lowerProbes (keyAt operand docs) (.str value) first middle
    | .absent | .escaped => []

/-- The positions that `getUpperIndex` reads. -/
def upperPositions (docs : List Json) : List Nat :=
  Bisect.probes (keyAt operand docs) (.str value) 0 (docs.length - 1) ++
    match Bisect.search (keyAt operand docs) (.str value) 0 (docs.length - 1) with
    | .found _ middle last => Bisect.upperProbes (keyAt operand docs) (.str value) middle last
    | .absent | .escaped => []

section Sorted

variable {docs : List Json} {fuel : Nat}

theorem keyAt_eq {i : Nat} (hi : i < docs.length) : keyAt operand docs i = field operand docs[i] := by
  simp [keyAt, hi]

theorem keyAt_ascending (hsorted : docs.Pairwise fun a b => field operand a ≤ field operand b) :
    Bisect.Ascending (keyAt operand docs) (docs.length - 1) := by
  intro i j hij hj
  by_cases hpos : docs = []
  · simp [hpos, keyAt]
  · have hlength : 0 < docs.length := List.length_pos_of_ne_nil hpos
    rw [keyAt_eq operand (by omega), keyAt_eq operand (by omega)]
    rcases Nat.eq_or_lt_of_le hij with rfl | hlt
    · exact le_refl _
    · exact List.pairwise_iff_getElem.mp hsorted i j (by omega) (by omega) hlt

/-- Some document has the value. -/
def Occurs (docs : List Json) : Prop := ∃ doc ∈ docs, field operand doc = .str value

/-- All documents are above the value. -/
def Below (docs : List Json) : Prop := ∀ doc ∈ docs, .str value < field operand doc

instance (docs : List Json) : Decidable (Occurs operand value docs) :=
  inferInstanceAs (Decidable (∃ doc ∈ docs, _))

instance (docs : List Json) : Decidable (Below operand value docs) :=
  inferInstanceAs (Decidable (∀ doc ∈ docs, _))

variable (hdocs : ∀ doc ∈ docs, IsDocument doc) (positions : List Nat)
  (hlength : docs.length < 2 ^ 31) (hne : docs ≠ [])
  (hsorted : docs.Pairwise fun a b => field operand a ≤ field operand b)

include hne in
theorem below_iff_keyAt_zero (hkey : Bisect.Ascending (keyAt operand docs) (docs.length - 1)) :
    Below operand value docs ↔ .str value < keyAt operand docs 0 := by
  have hpos : 0 < docs.length := List.length_pos_of_ne_nil hne
  constructor
  · intro h
    rw [keyAt_eq operand hpos]
    exact h _ (List.getElem_mem hpos)
  · intro h doc hdoc
    rcases List.getElem_of_mem hdoc with ⟨i, hi, rfl⟩
    rw [← keyAt_eq operand hi]
    exact h.trans_le (hkey 0 i (Nat.zero_le i) (by omega))

include hdocs hlength hne hsorted

/-- The search through a whole collection. -/
theorem getSearchIndex_all (hfuel : docs.length < fuel) (hbelow : ¬Below operand value docs) :
    (Occurs operand value docs ∧ ∃ first middle last,
        Bisect.search (keyAt operand docs) (.str value) 0 (docs.length - 1) =
          .found first middle last ∧
        getSearchIndex operand value fuel (entered operand docs positions) 0
            (decrement (entered operand docs positions).length) =
          .done (entered operand docs (positions ++
            Bisect.probes (keyAt operand docs) (.str value) 0 (docs.length - 1)),
            some (first, middle, last)) ∧
        (middle ≤ last ∧ last < docs.length) ∧ keyAt operand docs middle = .str value ∧
        (∀ i, i < first → keyAt operand docs i < .str value) ∧
        ∀ i, last < i → i ≤ docs.length - 1 → .str value < keyAt operand docs i) ∨
      (¬Occurs operand value docs ∧ ∃ docs',
        getSearchIndex operand value fuel (entered operand docs positions) 0
          (decrement (entered operand docs positions).length) = .done (docs', none)) := by
  have hpos : 0 < docs.length := List.length_pos_of_ne_nil hne
  have hkey := keyAt_ascending operand hsorted
  rw [length_entered, decrement_of_pos (by omega) hlength]
  have hsearch := getSearchIndex_eq operand value hdocs hlength positions 0 (docs.length - 1) fuel
    (by omega) (by omega)
  have hcorrect := Bisect.search_correct hkey (.str value) 0
  cases houtcome : Bisect.search (keyAt operand docs) (.str value) 0 (docs.length - 1) with
  | found first middle last =>
      rw [houtcome] at hsearch hcorrect
      rcases hcorrect with ⟨hbounds, hvalue, hcut, hcut'⟩
      refine .inl ⟨?_, first, middle, last, rfl, hsearch, by omega, hvalue, ?_, hcut'⟩
      · rw [keyAt_eq operand (by omega)] at hvalue
        exact ⟨_, List.getElem_mem (by omega), hvalue⟩
      · intro i hi
        exact hcut i (Nat.zero_le i) hi
  | absent =>
      rw [houtcome] at hsearch hcorrect
      refine .inr ⟨?_, _, hsearch⟩
      rintro ⟨doc, hdoc, hvalue⟩
      rcases List.getElem_of_mem hdoc with ⟨i, hi, rfl⟩
      rw [← keyAt_eq operand hi] at hvalue
      exact hcorrect i (Nat.zero_le i) (by omega) hvalue
  -- bisection leaves the array only for a value below all elements
  | escaped =>
      rw [Bisect.search_escaped_iff hkey] at houtcome
      exact absurd ((below_iff_keyAt_zero operand value hne hkey).mpr houtcome) hbelow

theorem getSearchIndex_all_of_below (hbelow : Below operand value docs) :
    getSearchIndex operand value fuel (entered operand docs positions) 0
      (decrement (entered operand docs positions).length) = .pending := by
  have hpos : 0 < docs.length := List.length_pos_of_ne_nil hne
  have hkey := keyAt_ascending operand hsorted
  rw [length_entered, decrement_of_pos (by omega) hlength]
  exact getSearchIndex_of_lt operand value hdocs hlength positions (by omega) hkey
    ((below_iff_keyAt_zero operand value hne hkey).mp hbelow) fuel

/-- The first position of a value that occurs. -/
theorem getlowerIndex_of_occurs (hfuel : docs.length < fuel) (h : Occurs operand value docs) :
    ∃ i, i < docs.length ∧
      getlowerIndex operand value fuel (entered operand docs positions) =
        .done (entered operand docs (positions ++ lowerPositions operand value docs), some i) ∧
      Bisect.IsFirst (keyAt operand docs) (.str value) i := by
  have hbelow : ¬Below operand value docs := by
    rcases h with ⟨doc, hdoc, hvalue⟩
    exact fun hbelow => (hbelow doc hdoc).ne hvalue.symm
  rcases getSearchIndex_all operand value hdocs positions hlength hne hsorted hfuel hbelow with
    ⟨-, first, middle, last, hfound, hsearch, hbounds, hvalue, hcut, -⟩ | ⟨habsent, -⟩
  · have hkey := (keyAt_ascending operand hsorted).mono
      (show middle ≤ docs.length - 1 by omega)
    rcases lowerLoop_isFirst operand value hdocs hlength
      (positions ++ Bisect.probes (keyAt operand docs) (.str value) 0 (docs.length - 1))
      (by omega) hkey hvalue hcut hfuel (n := fuel) (by omega) with ⟨i, hi, hloop, hisFirst⟩
    refine ⟨i, hi, ?_, hisFirst⟩
    rw [getlowerIndex, hsearch, lowerPositions, hfound, ← List.append_assoc]
    simp [hloop]
  · exact absurd h habsent

theorem getlowerIndex_of_absent (hfuel : docs.length < fuel) (hbelow : ¬Below operand value docs)
    (h : ¬Occurs operand value docs) :
    ∃ docs', getlowerIndex operand value fuel (entered operand docs positions) =
      .done (docs', none) := by
  rcases getSearchIndex_all operand value hdocs positions hlength hne hsorted hfuel hbelow with
    ⟨hoccurs, -⟩ | ⟨-, docs', hsearch⟩
  · exact absurd hoccurs h
  · refine ⟨docs', ?_⟩
    rw [getlowerIndex, hsearch]
    rfl

theorem getlowerIndex_of_below (hbelow : Below operand value docs) :
    getlowerIndex operand value fuel (entered operand docs positions) = .pending := by
  rw [getlowerIndex, getSearchIndex_all_of_below operand value hdocs positions hlength hne hsorted
    hbelow, pending_bind]

/-- The last position of a value that occurs. -/
theorem getUpperIndex_of_occurs (hfuel : docs.length < fuel) (h : Occurs operand value docs) :
    ∃ i, getUpperIndex operand value fuel (entered operand docs positions) =
        .done (entered operand docs (positions ++ upperPositions operand value docs), some i) ∧
      Bisect.IsLast (keyAt operand docs) (.str value) (docs.length - 1) i := by
  have hbelow : ¬Below operand value docs := by
    rcases h with ⟨doc, hdoc, hvalue⟩
    exact fun hbelow => (hbelow doc hdoc).ne hvalue.symm
  rcases getSearchIndex_all operand value hdocs positions hlength hne hsorted hfuel hbelow with
    ⟨-, first, middle, last, hfound, hsearch, hbounds, hvalue, -, hcut⟩ | ⟨habsent, -⟩
  · have hkey := keyAt_ascending operand hsorted
    rcases upperLoop_isLast operand value hdocs hlength
      (positions ++ Bisect.probes (keyAt operand docs) (.str value) 0 (docs.length - 1))
      hbounds.1 hbounds.2 hkey hvalue hcut hfuel (n := fuel) (by omega) with ⟨i, hloop, hisLast⟩
    refine ⟨i, ?_, hisLast⟩
    rw [getUpperIndex, hsearch, upperPositions, hfound, ← List.append_assoc]
    simp [hloop]
  · exact absurd h habsent

theorem getUpperIndex_of_absent (hfuel : docs.length < fuel) (hbelow : ¬Below operand value docs)
    (h : ¬Occurs operand value docs) :
    ∃ docs', getUpperIndex operand value fuel (entered operand docs positions) =
      .done (docs', none) := by
  rcases getSearchIndex_all operand value hdocs positions hlength hne hsorted hfuel hbelow with
    ⟨hoccurs, -⟩ | ⟨-, docs', hsearch⟩
  · exact absurd hoccurs h
  · refine ⟨docs', ?_⟩
    rw [getUpperIndex, hsearch]
    rfl

theorem getUpperIndex_of_below (hbelow : Below operand value docs) :
    getUpperIndex operand value fuel (entered operand docs positions) = .pending := by
  rw [getUpperIndex, getSearchIndex_all_of_below operand value hdocs positions hlength hne hsorted
    hbelow, pending_bind]

omit hdocs hlength hne

/-! ### Slices -/

theorem split_first {i : Nat} (h : Bisect.IsFirst (keyAt operand docs) (.str value) i) :
    (∀ doc ∈ docs.take i, field operand doc < .str value) ∧
      ∀ doc ∈ docs.drop i, .str value ≤ field operand doc := by
  constructor
  · apply Bisect.forall_mem_take
    intro j hj hlt
    have hbefore := h.2 j hlt
    rwa [keyAt_eq operand hj] at hbefore
  · apply Bisect.forall_mem_drop
    intro j hj hle
    have hbehind := keyAt_ascending operand hsorted i j hle (by omega)
    rwa [h.1, keyAt_eq operand hj] at hbehind

theorem split_last {i : Nat}
    (h : Bisect.IsLast (keyAt operand docs) (.str value) (docs.length - 1) i) :
    (∀ doc ∈ docs.take (i + 1), field operand doc ≤ .str value) ∧
      ∀ doc ∈ docs.drop (i + 1), .str value < field operand doc := by
  constructor
  · apply Bisect.forall_mem_take
    intro j hj hlt
    have hbefore := keyAt_ascending operand hsorted j i (by omega) h.1.1
    rwa [h.1.2, keyAt_eq operand hj] at hbefore
  · apply Bisect.forall_mem_drop
    intro j hj hle
    have hbehind := h.2 j (by omega) (by omega)
    rwa [keyAt_eq operand hj] at hbehind

variable {i : Nat}

theorem take_first (h : Bisect.IsFirst (keyAt operand docs) (.str value) i) :
    docs.take i = docs.filter fun doc => field operand doc < .str value := by
  rcases split_first operand value hsorted h with ⟨hbefore, hbehind⟩
  exact (Bisect.filter_eq_take (by simpa using hbefore) (by simpa using hbehind)).symm

theorem drop_first (h : Bisect.IsFirst (keyAt operand docs) (.str value) i) :
    docs.drop i = docs.filter fun doc => .str value ≤ field operand doc := by
  rcases split_first operand value hsorted h with ⟨hbefore, hbehind⟩
  exact (Bisect.filter_eq_drop (by simpa using hbefore) (by simpa using hbehind)).symm

theorem take_last (h : Bisect.IsLast (keyAt operand docs) (.str value) (docs.length - 1) i) :
    docs.take (i + 1) = docs.filter fun doc => field operand doc ≤ .str value := by
  rcases split_last operand value hsorted h with ⟨hbefore, hbehind⟩
  exact (Bisect.filter_eq_take (by simpa using hbefore) (by simpa using hbehind)).symm

theorem drop_last (h : Bisect.IsLast (keyAt operand docs) (.str value) (docs.length - 1) i) :
    docs.drop (i + 1) = docs.filter fun doc => .str value < field operand doc := by
  rcases split_last operand value hsorted h with ⟨hbefore, hbehind⟩
  exact (Bisect.filter_eq_drop (by simpa using hbefore) (by simpa using hbehind)).symm

/-- Between the ends of its range stand the documents that have the value. -/
theorem drop_take {j : Nat} (h : Bisect.IsFirst (keyAt operand docs) (.str value) i)
    (h' : Bisect.IsLast (keyAt operand docs) (.str value) (docs.length - 1) j) :
    (docs.drop i).take (j + 1 - i) = docs.filter fun doc => field operand doc = .str value := by
  have hboth : (docs.drop i).take (j + 1 - i) =
      (docs.drop i).filter fun doc => field operand doc ≤ .str value := by
    rcases split_last operand value hsorted h' with ⟨hbefore, hbehind⟩
    symm
    apply Bisect.filter_eq_take
    · intro doc hdoc
      have hmem : doc ∈ docs.take (j + 1) := by
        rw [← List.drop_take] at hdoc
        exact List.mem_of_mem_drop hdoc
      simpa using hbefore doc hmem
    · intro doc hdoc
      rw [List.drop_drop] at hdoc
      have hmem : doc ∈ docs.drop (j + 1) := List.drop_subset_drop_left docs (by omega) hdoc
      simpa using hbehind doc hmem
  rw [hboth, drop_first operand value hsorted h, List.filter_filter]
  apply List.filter_congr
  intro doc _
  rw [Bool.eq_iff_iff]
  simp [le_antisymm_iff]

/-- At the last position of the value stands a document that has it, and behind it those
above. -/
theorem drop_upper (h : Bisect.IsLast (keyAt operand docs) (.str value) (docs.length - 1) i)
    (hne : docs ≠ []) :
    ∃ doc ∈ docs, field operand doc = .str value ∧
      docs.drop i = doc :: docs.filter fun doc => .str value < field operand doc := by
  have hpos : 0 < docs.length := List.length_pos_of_ne_nil hne
  have hi : i < docs.length := by
    have hle := h.1.1
    omega
  have hvalue := h.1.2
  rw [keyAt_eq operand hi] at hvalue
  refine ⟨docs[i], List.getElem_mem hi, hvalue, ?_⟩
  rw [← drop_last operand value hsorted h]
  exact List.drop_eq_getElem_cons hi

end Sorted

end DecentralizedCloud.Storage
