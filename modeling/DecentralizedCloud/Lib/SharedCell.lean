import Mathlib.Data.List.FinRange
import Mathlib.Data.List.Perm.Basic
import Mathlib.Logic.Function.Basic
import DecentralizedCloud.Lib.Trace

/-!
# Appending to a shared cell

Each of `n` clients adds one item to the value of a cell, and nothing protects it
while it does so: it reads the cell, puts back what it has read with its item, and
then publishes what it has put. The cell and the publication are overwritten by
whoever comes last.

Once all clients are through, every item is there exactly once, and what is
published is what the cell holds, exactly when every client has put the cell before
another one did since its read, and the last one to put is the last one to publish
(`kept_iff_orderly`).
-/

namespace SharedCell

universe u v

inductive Access (n : Nat) where
  | read (i : Fin n)
  | put (i : Fin n)
  | publish (i : Fin n)
deriving DecidableEq, Repr

inductive Client (α : Type u) where
  | idle
  | holds (a : α)
  | wrote (a : α)
  | published (a : α)

/-- What the client has put. -/
def Client.value {α : Type u} : Client α → Option α
  | .idle | .holds _ => none
  | .wrote a | .published a => some a

structure State (n : Nat) (α : Type u) where
  cell : α
  published : α
  client : Fin n → Client α

/-! ## Histories -/

section History

variable {n : Nat} {es : List (Access n)} {e : Access n} {i : Fin n}

def Access.putter : Access n → Option (Fin n)
  | .put i => some i
  | .read _ | .publish _ => none

def Access.publisher : Access n → Option (Fin n)
  | .publish i => some i
  | .read _ | .put _ => none

/-- The clients that have put the cell, in this order. -/
def puts (es : List (Access n)) : List (Fin n) := es.filterMap Access.putter

def publications (es : List (Access n)) : List (Fin n) := es.filterMap Access.publisher

/-- The clients that have read the cell since it was last put. -/
def readers (es : List (Access n)) : List (Fin n) :=
  es.foldl (fun readers e =>
    match e with
    | .read i => i :: readers
    | .put _ => []
    | .publish _ => readers) []

/-- No client puts the cell when another one has put it since its read. -/
def Undisturbed (es : List (Access n)) : Prop :=
  ∀ l i r, es = l ++ .put i :: r → i ∈ readers l

/-- The last client to put is also the last one to publish. -/
def Orderly (es : List (Access n)) : Prop :=
  Undisturbed es ∧ (puts es).getLast? = (publications es).getLast?

@[simp] theorem puts_read : puts (es ++ [.read i]) = puts es := by
  simp [puts, Access.putter]

@[simp] theorem puts_put : puts (es ++ [.put i]) = puts es ++ [i] := by
  simp [puts, Access.putter]

@[simp] theorem puts_publish : puts (es ++ [.publish i]) = puts es := by
  simp [puts, Access.putter]

@[simp] theorem publications_read : publications (es ++ [.read i]) = publications es := by
  simp [publications, Access.publisher]

@[simp] theorem publications_put : publications (es ++ [.put i]) = publications es := by
  simp [publications, Access.publisher]

@[simp] theorem publications_publish :
    publications (es ++ [.publish i]) = publications es ++ [i] := by
  simp [publications, Access.publisher]

@[simp] theorem readers_read : readers (es ++ [.read i]) = i :: readers es := by
  simp [readers]

@[simp] theorem readers_put : readers (es ++ [.put i]) = [] := by
  simp [readers]

@[simp] theorem readers_publish : readers (es ++ [.publish i]) = readers es := by
  simp [readers]

theorem undisturbed_snoc :
    Undisturbed (es ++ [e]) ↔ Undisturbed es ∧ ∀ i, e = .put i → i ∈ readers es := by
  constructor
  · intro h
    refine ⟨?_, ?_⟩
    · rintro l i r rfl
      exact h l i (r ++ [e]) (by simp)
    · rintro i rfl
      exact h es i [] rfl
  · rintro ⟨hes, he⟩ l i r hsplit
    rcases List.eq_nil_or_concat r with rfl | ⟨r', e', rfl⟩
    · rcases List.append_inj' hsplit rfl with ⟨rfl, hlast⟩
      exact he i (List.cons.inj hlast).1
    · rw [List.concat_eq_append, ← List.cons_append, ← List.append_assoc] at hsplit
      exact hes l i r' (List.append_inj' hsplit rfl).1

@[simp] theorem undisturbed_read : Undisturbed (es ++ [.read i]) ↔ Undisturbed es := by
  simp [undisturbed_snoc]

@[simp] theorem undisturbed_put :
    Undisturbed (es ++ [.put i]) ↔ Undisturbed es ∧ i ∈ readers es := by
  simp [undisturbed_snoc]

@[simp] theorem undisturbed_publish : Undisturbed (es ++ [.publish i]) ↔ Undisturbed es := by
  simp [undisturbed_snoc]

theorem undisturbed_nil : Undisturbed ([] : List (Access n)) := by
  intro l i r h
  simp at h

end History

/-! ## The machine -/

section Machine

variable {n : Nat} {α : Type u} {β : Type v} (add : α → β → α) (item : Fin n → β)

def State.initial (a : α) : State n α where
  cell := a
  published := a
  client _ := .idle

def step : Machine.Step (State n α) (Access n) := fun s e =>
  match e with
  | .read i =>
      match s.client i with
      | .idle => some { s with client := Function.update s.client i (.holds s.cell) }
      | .holds _ | .wrote _ | .published _ => none
  | .put i =>
      match s.client i with
      | .holds a =>
          some { s with
            cell := add a (item i)
            client := Function.update s.client i (.wrote (add a (item i))) }
      | .idle | .wrote _ | .published _ => none
  | .publish i =>
      match s.client i with
      | .wrote a =>
          some { s with published := a, client := Function.update s.client i (.published a) }
      | .idle | .holds _ | .published _ => none

variable {add item} {s s' : State n α} {i j : Fin n} {a a₀ : α} {es : List (Access n)}

theorem step_read : step add item s (.read i) = some s' ↔
    s.client i = .idle ∧ s' = { s with client := Function.update s.client i (.holds s.cell) } := by
  constructor
  · intro h
    cases hi : s.client i <;> simp only [step, hi, Option.some.injEq, reduceCtorEq] at h
    exact ⟨rfl, h.symm⟩
  · rintro ⟨hi, rfl⟩
    simp [step, hi]

theorem step_put : step add item s (.put i) = some s' ↔
    ∃ a, s.client i = .holds a ∧ s' = { s with
      cell := add a (item i)
      client := Function.update s.client i (.wrote (add a (item i))) } := by
  constructor
  · intro h
    cases hi : s.client i <;> simp only [step, hi, Option.some.injEq, reduceCtorEq] at h
    exact ⟨_, rfl, h.symm⟩
  · rintro ⟨a, hi, rfl⟩
    simp [step, hi]

theorem step_publish : step add item s (.publish i) = some s' ↔
    ∃ a, s.client i = .wrote a ∧
      s' = { s with published := a, client := Function.update s.client i (.published a) } := by
  constructor
  · intro h
    cases hi : s.client i <;> simp only [step, hi, Option.some.injEq, reduceCtorEq] at h
    exact ⟨_, rfl, h.symm⟩
  · rintro ⟨a, hi, rfl⟩
    simp [step, hi]

/-! ## Who has put what -/

/-- The history tells how far every client is, and whose values are in the end. -/
structure Recorded (a₀ : α) (es : List (Access n)) (s : State n α) : Prop where
  nodup : (puts es).Nodup
  mem_puts : ∀ i, i ∈ puts es ↔ (s.client i).value.isSome
  mem_publications : ∀ i, i ∈ publications es ↔ ∃ a, s.client i = .published a
  cell : ∀ i, (puts es).getLast? = some i → (s.client i).value = some s.cell
  cell_initial : puts es = [] → s.cell = a₀
  published : ∀ i, (publications es).getLast? = some i → s.client i = .published s.published
  published_initial : publications es = [] → s.published = a₀

theorem recorded_initial (a₀ : α) : Recorded a₀ [] (State.initial a₀ : State n α) where
  nodup := List.nodup_nil
  mem_puts := by simp [puts, State.initial, Client.value]
  mem_publications := by simp [publications, State.initial]
  cell := by simp [puts]
  cell_initial _ := rfl
  published := by simp [publications]
  published_initial _ := rfl

/-- A client that has neither put nor published moves on by itself. -/
theorem Recorded.read (h : Recorded a₀ es s) (hi : s.client i = .idle) :
    Recorded a₀ (es ++ [.read i])
      { s with client := Function.update s.client i (.holds s.cell) } := by
  have hclient : ∀ j, (Function.update s.client i (.holds s.cell) j).value =
      (s.client j).value := by
    intro j
    by_cases hj : j = i
    · subst hj
      simp [hi, Client.value]
    · rw [Function.update_of_ne hj]
  have hpublished : ∀ j a, Function.update s.client i (.holds s.cell) j = .published a ↔
      s.client j = .published a := by
    intro j a
    by_cases hj : j = i
    · subst hj
      simp [hi]
    · rw [Function.update_of_ne hj]
  refine ⟨?_, ?_, ?_, ?_, ?_, ?_, ?_⟩
  · rw [puts_read]
    exact h.nodup
  · intro j
    rw [puts_read, h.mem_puts, hclient]
  · intro j
    rw [publications_read, h.mem_publications]
    exact exists_congr fun a => (hpublished j a).symm
  · intro j hj
    rw [hclient]
    exact h.cell j (by rwa [puts_read] at hj)
  · intro hputs
    exact h.cell_initial (by rwa [puts_read] at hputs)
  · intro j hj
    rw [hpublished]
    exact h.published j (by rwa [publications_read] at hj)
  · intro hpublications
    exact h.published_initial (by rwa [publications_read] at hpublications)

/-- A put of the client that holds a value. -/
theorem Recorded.put (h : Recorded a₀ es s) (hi : s.client i = .holds a) (b : α) :
    Recorded a₀ (es ++ [.put i])
      { s with cell := b, client := Function.update s.client i (.wrote b) } := by
  have hnotMem : i ∉ puts es := by
    rw [h.mem_puts, hi]
    simp [Client.value]
  have hpublished : ∀ j a, Function.update s.client i (.wrote b) j = .published a ↔
      s.client j = .published a := by
    intro j a
    by_cases hj : j = i
    · subst hj
      simp [hi]
    · rw [Function.update_of_ne hj]
  refine ⟨?_, ?_, ?_, ?_, ?_, ?_, ?_⟩
  -- it is the only put of this client
  · rw [puts_put, List.nodup_append]
    refine ⟨h.nodup, List.nodup_singleton i, ?_⟩
    rintro j hj k hk rfl
    rw [List.mem_singleton] at hk
    exact hnotMem (hk ▸ hj)
  · intro j
    rw [puts_put, List.mem_append, List.mem_singleton]
    by_cases hj : j = i
    · subst hj
      simp [Client.value]
    · simp [hj, h.mem_puts]
  · intro j
    rw [publications_put, h.mem_publications]
    exact exists_congr fun a => (hpublished j a).symm
  · intro j hj
    -- the last put is this one, and the cell has its value
    rw [puts_put, List.getLast?_concat, Option.some.injEq] at hj
    subst hj
    simp [Client.value]
  · simp
  · intro j hj
    rw [hpublished]
    exact h.published j (by rwa [publications_put] at hj)
  · intro hpublications
    exact h.published_initial (by rwa [publications_put] at hpublications)

/-- The publication of what the client has put. -/
theorem Recorded.publish (h : Recorded a₀ es s) (hi : s.client i = .wrote a) :
    Recorded a₀ (es ++ [.publish i])
      { s with published := a, client := Function.update s.client i (.published a) } := by
  have hclient : ∀ j, (Function.update s.client i (.published a) j).value =
      (s.client j).value := by
    intro j
    by_cases hj : j = i
    · subst hj
      simp [hi, Client.value]
    · rw [Function.update_of_ne hj]
  refine ⟨?_, ?_, ?_, ?_, ?_, ?_, ?_⟩
  · rw [puts_publish]
    exact h.nodup
  · intro j
    rw [puts_publish, h.mem_puts, hclient]
  · intro j
    rw [publications_publish, List.mem_append, List.mem_singleton, h.mem_publications]
    by_cases hj : j = i
    · subst hj
      simp
    · simp [hj]
  · intro j hj
    rw [hclient]
    exact h.cell j (by rwa [puts_publish] at hj)
  · intro hputs
    exact h.cell_initial (by rwa [puts_publish] at hputs)
  · intro j hj
    -- the last publication is this one
    rw [publications_publish, List.getLast?_concat, Option.some.injEq] at hj
    subst hj
    simp
  · simp

theorem recorded (h : Machine.Run (step add item) (State.initial a₀) es s) :
    Recorded a₀ es s := by
  refine h.invariant (Recorded a₀) (recorded_initial a₀) ?_
  intro es s e s' hs _ hstep
  cases e with
  | read i =>
      rcases step_read.mp hstep with ⟨hi, rfl⟩
      exact hs.read hi
  | put i =>
      rcases step_put.mp hstep with ⟨a, hi, rfl⟩
      exact hs.put hi _
  | publish i =>
      rcases step_publish.mp hstep with ⟨a, hi, rfl⟩
      exact hs.publish hi

/-! ## What becomes of the items -/

/-- An item that is added to a good value stands behind its other items. -/
def Appends (item : Fin n → β) (good : α → Prop) (add : α → β → α) (content : α → List β) : Prop :=
  ∀ a i, good a → good (add a (item i)) ∧ content (add a (item i)) = content a ++ [item i]

variable {good : α → Prop} {content : α → List β}

/-- How many items a value has at most that can be read from the cell. -/
def bound (content : α → List β) (a₀ : α) (es : List (Access n)) : Nat :=
  (content a₀).length + (puts es).length

/-- As long as nobody was disturbed the cell has all items that were put. Once somebody
was, the number of its items stays behind for good. -/
structure Counted (item : Fin n → β) (good : α → Prop) (content : α → List β) (a₀ : α)
    (es : List (Access n)) (s : State n α) : Prop where
  good_cell : good s.cell
  good_holds : ∀ i a, s.client i = .holds a → good a
  kept : Undisturbed es → (content s.cell).Perm (content a₀ ++ (puts es).map item)
  lost : ¬Undisturbed es → (content s.cell).length < bound content a₀ es
  fresh : ∀ i a, s.client i = .holds a → i ∈ readers es → a = s.cell
  stale : ∀ i a, s.client i = .holds a → ¬(Undisturbed es ∧ i ∈ readers es) →
    (content a).length < bound content a₀ es
  wrote_le : ∀ i a, (s.client i).value = some a → (content a).length ≤ bound content a₀ es
  wrote_inj : Undisturbed es → ∀ i j a, (s.client i).value = some a →
    (s.client j).value = some a → i = j

theorem counted_initial (h : good a₀) :
    Counted item good content a₀ [] (State.initial a₀ : State n α) where
  good_cell := h
  good_holds := by simp [State.initial]
  kept _ := by simp [puts, State.initial]
  lost h := absurd undisturbed_nil h
  fresh := by simp [State.initial]
  stale := by simp [State.initial]
  wrote_le := by simp [State.initial, Client.value]
  wrote_inj := by simp [State.initial, Client.value]

theorem Counted.length_cell (h : Counted item good content a₀ es s) (hes : Undisturbed es) :
    (content s.cell).length = bound content a₀ es := by
  rw [(h.kept hes).length_eq, List.length_append, List.length_map, bound]

theorem Counted.cell_le (h : Counted item good content a₀ es s) :
    (content s.cell).length ≤ bound content a₀ es := by
  by_cases hes : Undisturbed es
  · exact (h.length_cell hes).le
  · exact (h.lost hes).le

theorem Counted.holds_le (h : Counted item good content a₀ es s) (hi : s.client i = .holds a) :
    (content a).length ≤ bound content a₀ es := by
  by_cases hes : Undisturbed es ∧ i ∈ readers es
  · rw [h.fresh i a hi hes.2]
    exact h.cell_le
  · exact (h.stale i a hi hes).le

/-- A read, after which the client holds the cell. -/
theorem Counted.read (h : Counted item good content a₀ es s) (hi : s.client i = .idle) :
    Counted item good content a₀ (es ++ [.read i])
      { s with client := Function.update s.client i (.holds s.cell) } := by
  have hbound : bound content a₀ (es ++ [.read i]) = bound content a₀ es := by
    rw [bound, puts_read, bound]
  have hvalue : ∀ j, (Function.update s.client i (.holds s.cell) j).value =
      (s.client j).value := by
    intro j
    by_cases hj : j = i
    · subst hj
      simp [hi, Client.value]
    · rw [Function.update_of_ne hj]
  have hholds : ∀ j b, Function.update s.client i (.holds s.cell) j = .holds b →
      j = i ∧ b = s.cell ∨ j ≠ i ∧ s.client j = .holds b := by
    intro j b hb
    by_cases hj : j = i
    · subst hj
      rw [Function.update_self, Client.holds.injEq] at hb
      exact .inl ⟨rfl, hb.symm⟩
    · exact .inr ⟨hj, by rwa [Function.update_of_ne hj] at hb⟩
  refine ⟨h.good_cell, ?_, ?_, ?_, ?_, ?_, ?_, ?_⟩
  · intro j b hb
    -- the client holds what is in the cell
    rcases hholds j b hb with ⟨-, rfl⟩ | ⟨-, hb⟩
    · exact h.good_cell
    · exact h.good_holds j b hb
  · rw [undisturbed_read, puts_read]
    exact h.kept
  · rw [undisturbed_read, hbound]
    exact h.lost
  · intro j b hb hj'
    rcases hholds j b hb with ⟨-, rfl⟩ | ⟨hj, hb⟩
    · rfl
    · rw [readers_read, List.mem_cons, or_iff_right hj] at hj'
      exact h.fresh j b hb hj'
  · intro j b hb hj'
    rw [undisturbed_read, readers_read, List.mem_cons] at hj'
    rw [hbound]
    -- a client that has just read holds too few items only if the cell has too few
    rcases hholds j b hb with ⟨rfl, rfl⟩ | ⟨hj, hb⟩
    · exact h.lost fun hes => hj' ⟨hes, .inl rfl⟩
    · rw [or_iff_right hj] at hj'
      exact h.stale j b hb hj'
  · intro j b hb
    rw [hbound]
    exact h.wrote_le j b (hvalue j ▸ hb)
  · intro hes j k b hj hk
    rw [undisturbed_read] at hes
    exact h.wrote_inj hes j k b (hvalue j ▸ hj) (hvalue k ▸ hk)

/-- A put with what the cell holds adds an item to all that are there; any other put
loses one. -/
theorem Counted.put (hadd : Appends item good add content)
    (h : Counted item good content a₀ es s) (hi : s.client i = .holds a) :
    Counted item good content a₀ (es ++ [.put i])
      { s with
        cell := add a (item i)
        client := Function.update s.client i (.wrote (add a (item i))) } := by
  have hbound : bound content a₀ (es ++ [.put i]) = bound content a₀ es + 1 := by
    rw [bound, puts_put, List.length_append, List.length_singleton, bound, Nat.add_assoc]
  rcases hadd a i (h.good_holds i a hi) with ⟨hgood, hcontent⟩
  have hlength : (content (add a (item i))).length = (content a).length + 1 := by
    rw [hcontent, List.length_append, List.length_singleton]
  have hvalue : ∀ j b, (Function.update s.client i (.wrote (add a (item i))) j).value = some b →
      j = i ∧ b = add a (item i) ∨ j ≠ i ∧ (s.client j).value = some b := by
    intro j b hb
    by_cases hj : j = i
    · subst hj
      rw [Function.update_self, Client.value, Option.some.injEq] at hb
      exact .inl ⟨rfl, hb.symm⟩
    · exact .inr ⟨hj, by rwa [Function.update_of_ne hj] at hb⟩
  have hholds : ∀ j b, Function.update s.client i (.wrote (add a (item i))) j = .holds b →
      s.client j = .holds b := by
    intro j b hb
    by_cases hj : j = i
    · subst hj
      rw [Function.update_self] at hb
      cases hb
    · rwa [Function.update_of_ne hj] at hb
  refine ⟨hgood, ?_, ?_, ?_, ?_, ?_, ?_, ?_⟩
  · intro j b hb
    exact h.good_holds j b (hholds j b hb)
  · intro hes
    rcases undisturbed_put.mp hes with ⟨hes, hi'⟩
    rw [hcontent, h.fresh i a hi hi', puts_put, List.map_append, ← List.append_assoc]
    exact (h.kept hes).append_right _
  · intro hes
    rw [undisturbed_put] at hes
    rw [hlength, hbound]
    have hstale := h.stale i a hi hes
    omega
  · simp
  · intro j b hb _
    have hle := h.holds_le (hholds j b hb)
    rw [hbound]
    omega
  · intro j b hb
    rw [hbound]
    rcases hvalue j b hb with ⟨-, rfl⟩ | ⟨-, hb⟩
    · have hle := h.holds_le hi
      omega
    · have hle := h.wrote_le j b hb
      omega
  · intro hes j k b hj hk
    rcases undisturbed_put.mp hes with ⟨hes, hi'⟩
    -- the new value has more items than any that was put before
    have hnew : ∀ j, (s.client j).value ≠ some (add a (item i)) := by
      intro j hj
      have hle := h.wrote_le j _ hj
      have hcell := h.length_cell hes
      rw [hlength, h.fresh i a hi hi', hcell] at hle
      omega
    rcases hvalue j b hj with ⟨rfl, rfl⟩ | ⟨-, hj⟩
    · rcases hvalue k _ hk with ⟨rfl, -⟩ | ⟨-, hk⟩
      · rfl
      · exact absurd hk (hnew k)
    · rcases hvalue k b hk with ⟨-, rfl⟩ | ⟨-, hk⟩
      · exact absurd hj (hnew j)
      · exact h.wrote_inj hes j k b hj hk

/-- Publishing keeps the count. -/
theorem Counted.publish (h : Counted item good content a₀ es s) (hi : s.client i = .wrote a) :
    Counted item good content a₀ (es ++ [.publish i])
      { s with published := a, client := Function.update s.client i (.published a) } := by
  have hbound : bound content a₀ (es ++ [.publish i]) = bound content a₀ es := by
    rw [bound, puts_publish, bound]
  have hvalue : ∀ j, (Function.update s.client i (.published a) j).value =
      (s.client j).value := by
    intro j
    by_cases hj : j = i
    · subst hj
      simp [hi, Client.value]
    · rw [Function.update_of_ne hj]
  have hholds : ∀ j b, Function.update s.client i (.published a) j = .holds b →
      s.client j = .holds b := by
    intro j b hb
    by_cases hj : j = i
    · subst hj
      rw [Function.update_self] at hb
      cases hb
    · rwa [Function.update_of_ne hj] at hb
  refine ⟨h.good_cell, ?_, ?_, ?_, ?_, ?_, ?_, ?_⟩
  · intro j b hb
    exact h.good_holds j b (hholds j b hb)
  · rw [undisturbed_publish, puts_publish]
    exact h.kept
  · rw [undisturbed_publish, hbound]
    exact h.lost
  · intro j b hb
    rw [readers_publish]
    exact h.fresh j b (hholds j b hb)
  · intro j b hb
    rw [undisturbed_publish, readers_publish, hbound]
    exact h.stale j b (hholds j b hb)
  · intro j b hb
    rw [hbound]
    exact h.wrote_le j b (hvalue j ▸ hb)
  · intro hes j k b hj hk
    rw [undisturbed_publish] at hes
    exact h.wrote_inj hes j k b (hvalue j ▸ hj) (hvalue k ▸ hk)

theorem counted (hadd : Appends item good add content) (ha₀ : good a₀)
    (h : Machine.Run (step add item) (State.initial a₀) es s) :
    Counted item good content a₀ es s := by
  refine h.invariant (Counted item good content a₀) (counted_initial ha₀) ?_
  intro es s e s' hs _ hstep
  cases e with
  | read i =>
      rcases step_read.mp hstep with ⟨hi, rfl⟩
      exact hs.read hi
  | put i =>
      rcases step_put.mp hstep with ⟨a, hi, rfl⟩
      exact hs.put hadd hi
  | publish i =>
      rcases step_publish.mp hstep with ⟨a, hi, rfl⟩
      exact hs.publish hi

/-- Every client has put the cell once. -/
theorem Recorded.puts_perm (h : Recorded a₀ es s) (hdone : ∀ i, ∃ a, s.client i = .published a) :
    (puts es).Perm (List.finRange n) := by
  rw [List.perm_ext_iff_of_nodup h.nodup (List.nodup_finRange n)]
  intro i
  rcases hdone i with ⟨a, ha⟩
  simp [h.mem_puts, ha, Client.value]

/-- The history of a run in which all clients are through is orderly exactly when all items
are kept and published. -/
theorem kept_iff_orderly (hadd : Appends item good add content) (ha₀ : good a₀)
    (h : Machine.Run (step add item) (State.initial a₀) es s)
    (hdone : ∀ i, ∃ a, s.client i = .published a) :
    (content s.cell).Perm (content a₀ ++ List.ofFn item) ∧ s.published = s.cell ↔
      Orderly es := by
  have hrecorded := recorded h
  have hcounted := counted hadd ha₀ h
  have hperm := hrecorded.puts_perm hdone
  have hitems : ((puts es).map item).Perm (List.ofFn item) := by
    rw [List.ofFn_eq_map]
    exact hperm.map item
  have hlast : ∀ i, i ∈ puts es ∧ i ∈ publications es := by
    intro i
    refine ⟨hperm.mem_iff.mpr (List.mem_finRange i), ?_⟩
    exact (hrecorded.mem_publications i).mpr (hdone i)
  constructor
  · rintro ⟨hkept, hpublished⟩
    have hes : Undisturbed es := by
      -- a put of an old value loses an item for good
      by_contra hes
      have hlost := hcounted.lost hes
      rw [hkept.length_eq, bound, List.length_append, ← hitems.length_eq, List.length_map] at hlost
      exact absurd hlost (lt_irrefl _)
    refine ⟨hes, ?_⟩
    -- without a client both are the initial value
    cases hput : (puts es).getLast? with
    | none =>
        cases hpublication : (publications es).getLast? with
        | none => rfl
        | some j =>
            have hmem := (hlast j).1
            rw [List.getLast?_eq_none_iff.mp hput] at hmem
            cases hmem
    | some i =>
        cases hpublication : (publications es).getLast? with
        | none =>
            have hmem := (hlast i).2
            rw [List.getLast?_eq_none_iff.mp hpublication] at hmem
            cases hmem
        | some j =>
            have hj := hrecorded.published j hpublication
            -- the value that is published was put last, and no two clients put the same one
            have hvalue : (s.client j).value = some s.cell := by
              rw [hj, Client.value, hpublished]
            exact congrArg some (hcounted.wrote_inj hes i j _ (hrecorded.cell i hput) hvalue)
  -- the last put is published
  · rintro ⟨hes, hsame⟩
    refine ⟨(hcounted.kept hes).trans (hitems.append_left _), ?_⟩
    cases hput : (puts es).getLast? with
    | none =>
        rw [hput] at hsame
        rw [hrecorded.cell_initial (List.getLast?_eq_none_iff.mp hput),
          hrecorded.published_initial (List.getLast?_eq_none_iff.mp hsame.symm)]
    | some i =>
        rw [hput] at hsame
        have hcell := hrecorded.cell i hput
        rw [hrecorded.published i hsame.symm, Client.value, Option.some.injEq] at hcell
        exact hcell

end Machine

end SharedCell
