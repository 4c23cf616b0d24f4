import Mathlib.Logic.Function.Basic

/-!
# Programs over a shared store

Programs read and write single keys of a store, one atomic step at a time. A
`Thread` is a program on its way: what is left of it, and its footprint, that
is, the keys that it has written and what it has seen of the rest of the store.
Wherever the store agrees with what it has seen, a thread stands for its whole
program (`Thread.Follows`), however the store came about.
-/

namespace Schedule

universe u

/-- A program over the store `K → V` that emits values of `O`. -/
inductive Prog (K V O : Type u) (R : Type u) : Type u where
  | ret (r : R)
  /-- an exception ends the program -/
  | raise
  | get (k : K) (next : V → Prog K V O R)
  | put (k : K) (v : V) (next : Prog K V O R)
  /-- a step that leaves the store alone -/
  | call (next : Prog K V O R)
  | emit (o : O) (next : Prog K V O R)

namespace Prog

variable {K V O R S : Type u}

def bind : Prog K V O R → (R → Prog K V O S) → Prog K V O S
  | ret r, f => f r
  | raise, _ => raise
  | get k next, f => get k fun v => (next v).bind f
  | put k v next, f => put k v (next.bind f)
  | call next, f => call (next.bind f)
  | emit o next, f => emit o (next.bind f)

instance : Monad (Prog K V O) where
  pure := ret
  bind := bind

@[simp] theorem ret_bind (r : R) (f : R → Prog K V O S) : (ret r >>= f) = f r := rfl

@[simp] theorem raise_bind (f : R → Prog K V O S) : ((raise : Prog K V O R) >>= f) = raise := rfl

/-- The program alone on a store: the store in the end, and what it emits. -/
def run [DecidableEq K] : Prog K V O R → (K → V) → (K → V) × List O
  | ret _, σ | raise, σ => (σ, [])
  | get k next, σ => (next (σ k)).run σ
  | put k v next, σ => next.run (Function.update σ k v)
  | call next, σ => next.run σ
  | emit o next, σ => ((next.run σ).1, o :: (next.run σ).2)

/-- The program alone on a store: the store in the end, and its result unless it has
raised. -/
def exec [DecidableEq K] : Prog K V O R → (K → V) → (K → V) × Option R
  | ret r, σ => (σ, some r)
  | raise, σ => (σ, none)
  | get k next, σ => (next (σ k)).exec σ
  | put k v next, σ => next.exec (Function.update σ k v)
  | call next, σ | emit _ next, σ => next.exec σ

theorem run_fst [DecidableEq K] (p : Prog K V O R) (σ : K → V) : (p.run σ).1 = (p.exec σ).1 := by
  induction p generalizing σ with
  | ret r | raise => rfl
  | get k next ih => exact ih (σ k) σ
  | put k v next ih => exact ih _
  | call next ih | emit o next ih => exact ih σ

theorem exec_bind [DecidableEq K] (p : Prog K V O R) (f : R → Prog K V O S) (σ : K → V) :
    (p >>= f).exec σ = match p.exec σ with
      | (σ', some r) => (f r).exec σ'
      | (σ', none) => (σ', none) := by
  show (p.bind f).exec σ = _
  induction p generalizing σ with
  | ret r | raise => rfl
  | get k next ih => exact ih (σ k) σ
  | put k v next ih => exact ih _
  | call next ih | emit o next ih => exact ih σ

/-- A program that has come to its end has done so at every step. -/
theorem of_exec_bind [DecidableEq K] {p : Prog K V O R} {f : R → Prog K V O S} {σ σ' : K → V}
    {s : S} (h : (p >>= f).exec σ = (σ', some s)) :
    ∃ σ₁ r, p.exec σ = (σ₁, some r) ∧ (f r).exec σ₁ = (σ', some s) := by
  rw [exec_bind] at h
  rcases hp : p.exec σ with ⟨σ₁, _ | r⟩
  · rw [hp] at h
    cases h
  · rw [hp] at h
    exact ⟨σ₁, r, rfl, h⟩

@[simp] theorem exec_pure [DecidableEq K] (r : R) (σ : K → V) :
    (pure r : Prog K V O R).exec σ = (σ, some r) := rfl

/-- What the program alone on a store emits. -/
def outputs [DecidableEq K] (p : Prog K V O R) (σ : K → V) : List O := (p.run σ).2

/-- What comes behind a program emits nothing if that has raised. -/
theorem outputs_bind [DecidableEq K] (p : Prog K V O R) (f : R → Prog K V O S) (σ : K → V) :
    (p >>= f).outputs σ = p.outputs σ ++ match p.exec σ with
      | (σ', some r) => (f r).outputs σ'
      | (_, none) => [] := by
  show (p.bind f).outputs σ = _
  induction p generalizing σ with
  | ret r | raise => rfl
  | get k next ih => exact ih (σ k) σ
  | put k v next ih => exact ih _
  | call next ih => exact ih σ
  | emit o next ih => exact congrArg (o :: ·) (ih σ)

@[simp] theorem outputs_pure [DecidableEq K] (r : R) (σ : K → V) :
    (pure r : Prog K V O R).outputs σ = [] := rfl

/-- The program only emits what is allowed. -/
def Emits (allowed : O → Prop) : Prog K V O R → Prop
  | ret _ | raise => True
  | get _ next => ∀ v, (next v).Emits allowed
  | put _ _ next | call next => next.Emits allowed
  | emit o next => allowed o ∧ next.Emits allowed

theorem Emits.bind {allowed : O → Prop} {p : Prog K V O R} {f : R → Prog K V O S}
    (hp : p.Emits allowed) (hf : ∀ r, (f r).Emits allowed) : (p >>= f).Emits allowed := by
  show (p.bind f).Emits allowed
  induction p with
  | ret r => exact hf r
  | raise => trivial
  | get k next ih => exact fun v => ih v (hp v)
  | put k v next ih | call next ih => exact ih hp
  | emit o next ih => exact ⟨hp.1, ih hp.2⟩

theorem allowed_of_mem_outputs [DecidableEq K] {allowed : O → Prop} {p : Prog K V O R}
    (h : p.Emits allowed) (σ : K → V) : ∀ o ∈ p.outputs σ, allowed o := by
  induction p generalizing σ with
  | ret r | raise => exact nofun
  | get k next ih => exact ih (σ k) (h (σ k)) σ
  | put k v next ih => exact ih h _
  | call next ih => exact ih h σ
  | emit o next ih =>
      intro o' ho'
      rcases List.mem_cons.mp ho' with rfl | ho'
      · exact h.1
      · exact ih h.2 σ o' ho'

/-- A program that may not emit anything is silent. -/
theorem outputs_of_silent [DecidableEq K] {p : Prog K V O R} (h : p.Emits fun _ => False)
    (σ : K → V) : p.outputs σ = [] :=
  List.eq_nil_iff_forall_not_mem.mpr (allowed_of_mem_outputs h σ)

/-- From a store with the invariant the program comes to one, also when it raises, and its
result has the property. -/
def Maintains [DecidableEq K] (invariant : (K → V) → Prop) (p : Prog K V O R) (post : R → Prop) :
    Prop :=
  ∀ σ, invariant σ → invariant (p.exec σ).1 ∧ ∀ r ∈ (p.exec σ).2, post r

theorem Maintains.bind [DecidableEq K] {invariant : (K → V) → Prop} {p : Prog K V O R}
    {f : R → Prog K V O S} {post : R → Prop} {post' : S → Prop} (hp : p.Maintains invariant post)
    (hf : ∀ r, post r → (f r).Maintains invariant post') :
    (p >>= f).Maintains invariant post' := by
  intro σ hσ
  rcases hp σ hσ with ⟨hinvariant, hresult⟩
  rw [exec_bind]
  rcases hexec : p.exec σ with ⟨σ', _ | r⟩
  · rw [hexec] at hinvariant
    exact ⟨hinvariant, nofun⟩
  · rw [hexec] at hinvariant hresult
    exact hf r (hresult r rfl) σ' hinvariant

/-- The program only reads tracked keys. -/
def Reads (tracked : K → Prop) : Prog K V O R → Prop
  | ret _ | raise => True
  | get k next => tracked k ∧ ∀ v, (next v).Reads tracked
  | put _ _ next | call next | emit _ next => next.Reads tracked

theorem Reads.mono {tracked tracked' : K → Prop} {p : Prog K V O R} (h : p.Reads tracked)
    (htracked : ∀ k, tracked k → tracked' k) : p.Reads tracked' := by
  induction p with
  | ret r | raise => trivial
  | get k next ih => exact ⟨htracked k h.1, fun v => ih v (h.2 v)⟩
  | put k v next ih | call next ih | emit o next ih => exact ih h

theorem Reads.bind {tracked : K → Prop} {p : Prog K V O R} {f : R → Prog K V O S}
    (hp : p.Reads tracked) (hf : ∀ r, (f r).Reads tracked) : (p.bind f).Reads tracked := by
  induction p with
  | ret r => exact hf r
  | raise => trivial
  | get k next ih => exact ⟨hp.1, fun v => ih v (hp.2 v)⟩
  | put k v next ih => exact ih hp
  | call next ih => exact ih hp
  | emit o next ih => exact ih hp

/-- Two stores that agree on what is read: the same is emitted, and they still agree. -/
theorem Reads.run_congr [DecidableEq K] {tracked : K → Prop} {p : Prog K V O R}
    (h : p.Reads tracked) {σ σ' : K → V} (hσ : ∀ k, tracked k → σ k = σ' k) :
    (p.run σ).2 = (p.run σ').2 ∧ ∀ k, tracked k → (p.run σ).1 k = (p.run σ').1 k := by
  induction p generalizing σ σ' with
  | ret r | raise => exact ⟨rfl, hσ⟩
  | get k next ih =>
      rw [run, run, hσ k h.1]
      exact ih (σ' k) (h.2 _) hσ
  | put k v next ih =>
      apply ih h
      intro k' hk'
      by_cases heq : k' = k
      · subst heq
        simp
      · rw [Function.update_of_ne heq, Function.update_of_ne heq]
        exact hσ k' hk'
  | call next ih => exact ih h hσ
  | emit o next ih =>
      rcases ih h hσ with ⟨hout, hstore⟩
      exact ⟨congrArg (o :: ·) hout, hstore⟩

/-- The program only writes keys that are allowed. -/
def Writes (allowed : K → Prop) : Prog K V O R → Prop
  | ret _ | raise => True
  | get _ next => ∀ v, (next v).Writes allowed
  | put k _ next => allowed k ∧ next.Writes allowed
  | call next | emit _ next => next.Writes allowed

theorem Writes.bind {allowed : K → Prop} {p : Prog K V O R} {f : R → Prog K V O S}
    (hp : p.Writes allowed) (hf : ∀ r, (f r).Writes allowed) : (p.bind f).Writes allowed := by
  induction p with
  | ret r => exact hf r
  | raise => trivial
  | get k next ih => exact fun v => ih v (hp v)
  | put k v next ih => exact ⟨hp.1, ih hp.2⟩
  | call next ih => exact ih hp
  | emit o next ih => exact ih hp

/-- Every other key keeps its value. -/
theorem run_of_writes [DecidableEq K] {allowed : K → Prop} {p : Prog K V O R}
    (h : p.Writes allowed) {k : K} (hk : ¬allowed k) (σ : K → V) : (p.run σ).1 k = σ k := by
  induction p generalizing σ with
  | ret r | raise => rfl
  | get k' next ih => exact ih (σ k') (h (σ k')) σ
  | put k' v next ih =>
      have hne : k ≠ k' := fun heq => hk (heq ▸ h.1)
      rw [run, ih h.2, Function.update_of_ne hne]
  | call next ih => exact ih h σ
  | emit o next ih => exact ih h σ

end Prog

/-! ## Writes over a store -/

section Overlay

variable {K V : Type u} [DecidableEq K]

/-- The store with writes on top of it, the latest one first. -/
def overlay (written : List (K × V)) (σ : K → V) : K → V := fun k => (written.lookup k).getD (σ k)

@[simp] theorem overlay_nil (σ : K → V) : overlay [] σ = σ := rfl

theorem lookup_cons_ne {k k' : K} (h : k' ≠ k) (v : V) (xs : List (K × V)) :
    ((k, v) :: xs).lookup k' = xs.lookup k' := by
  have hne : (k' == k) = false := by simpa using h
  rw [List.lookup_cons, hne]

theorem lookup_ne_none_of_mem {x : K × V} {xs : List (K × V)} (h : x ∈ xs) :
    xs.lookup x.1 ≠ none := by
  rw [Ne, List.lookup_eq_none_iff]
  intro hall
  simpa using hall x h

theorem overlay_cons (k : K) (v : V) (written : List (K × V)) (σ : K → V) :
    overlay ((k, v) :: written) σ = Function.update (overlay written σ) k v := by
  funext k'
  by_cases h : k' = k
  · subst h
    simp [overlay]
  · rw [Function.update_of_ne h, overlay, overlay, lookup_cons_ne h]

theorem overlay_of_lookup_none {written : List (K × V)} {k : K} (h : written.lookup k = none)
    (σ : K → V) : overlay written σ k = σ k := by
  simp [overlay, h]

theorem overlay_of_lookup_some {written : List (K × V)} {k : K} {v : V}
    (h : written.lookup k = some v) (σ : K → V) : overlay written σ k = v := by
  simp [overlay, h]

end Overlay

/-! ## Threads -/

/-- A program that has started: what is left of it, its footprint (what it has
seen that it had not written itself, and what it has written), and what it has
emitted. -/
structure Thread (K V O R : Type u) where
  prog : Prog K V O R
  seen : List (K × V) := []
  written : List (K × V) := []
  emitted : List O := []

namespace Thread

variable {K V O R : Type u} [DecidableEq K]

def step (σ : K → V) (t : Thread K V O R) : Option ((K → V) × Thread K V O R) :=
  match t.prog with
  | .ret _ | .raise => none
  | .get k next =>
      some (σ, { t with
        prog := next (σ k)
        seen := if (t.written.lookup k).isSome then t.seen else (k, σ k) :: t.seen })
  | .put k v next =>
      some (Function.update σ k v, { t with prog := next, written := (k, v) :: t.written })
  | .call next => some (σ, { t with prog := next })
  | .emit o next => some (σ, { t with prog := next, emitted := t.emitted ++ [o] })

def ended (t : Thread K V O R) : Bool :=
  match t.prog with
  | .ret _ | .raise => true
  | .get _ _ | .put _ _ _ | .call _ | .emit _ _ => false

/-- The next step of `t` leaves the footprint of `u` alone. -/
def Clear (tracked : K → Prop) (t u : Thread K V O R) : Prop :=
  match t.prog with
  | .get k _ => tracked k → u.written.lookup k = none
  | .put k _ _ => tracked k → u.written.lookup k = none ∧ u.seen.lookup k = none
  | .ret _ | .raise | .call _ | .emit _ _ => True

instance {tracked : K → Prop} [DecidablePred tracked] (t u : Thread K V O R) :
    Decidable (t.Clear tracked u) :=
  match hprog : t.prog with
  | .get k _ =>
      decidable_of_iff (tracked k → u.written.lookup k = none) (by simp [Clear, hprog])
  | .put k _ _ =>
      decidable_of_iff (tracked k → u.written.lookup k = none ∧ u.seen.lookup k = none)
        (by simp [Clear, hprog])
  | .ret _ | .raise | .call _ | .emit _ _ => isTrue (by simp [Clear, hprog])

theorem Clear.of_get {tracked : K → Prop} {t u : Thread K V O R} {k : K} {next : V → Prog K V O R}
    (h : t.Clear tracked u) (hprog : t.prog = .get k next) (hk : tracked k) :
    u.written.lookup k = none := by
  simp only [Clear, hprog] at h
  exact h hk

theorem Clear.of_put {tracked : K → Prop} {t u : Thread K V O R} {k : K} {v : V}
    {next : Prog K V O R} (h : t.Clear tracked u) (hprog : t.prog = .put k v next)
    (hk : tracked k) : u.written.lookup k = none ∧ u.seen.lookup k = none := by
  simp only [Clear, hprog] at h
  exact h hk

/-- Wherever the store agrees with what the thread has seen, the whole program
comes to what is left of it on top of the writes so far. -/
def Follows (p : Prog K V O R) (t : Thread K V O R) : Prop :=
  ∀ σ, (∀ x ∈ t.seen, σ x.1 = x.2) →
    p.run σ = ((t.prog.run (overlay t.written σ)).1,
      t.emitted ++ (t.prog.run (overlay t.written σ)).2)

variable {p : Prog K V O R} {t t' : Thread K V O R} {σ σ' : K → V}

theorem Follows.start (p : Prog K V O R) : Follows p ({ prog := p } : Thread K V O R) := by
  intro σ _
  rfl

/-- A step follows the program when it reads the thread's own writes back. -/
theorem Follows.step (h : t.Follows p)
    (hown : ∀ k next, t.prog = .get k next → ∀ v ∈ t.written.lookup k, σ k = v)
    (hstep : t.step σ = some (σ', t')) : t'.Follows p := by
  rcases t with ⟨prog, seen, written, emitted⟩
  intro ρ hρ
  cases prog with
  | ret r | raise => cases hstep
  | get k next =>
      cases hstep
      cases hlookup : written.lookup k with
      | some v =>
          -- it reads its own write back, which the overlay shows as well
          simp only [hlookup, Option.isSome_some, if_true] at hρ
          rw [h ρ hρ]
          simp only [Prog.run]
          rw [overlay_of_lookup_some hlookup, hown k next rfl v hlookup]
      | none =>
          -- the value is a new observation, with which `ρ` agrees
          simp only [hlookup, Option.isSome_none, Bool.false_eq_true, if_false] at hρ
          rw [h ρ fun x hx => hρ x (List.mem_cons_of_mem _ hx)]
          simp only [Prog.run]
          rw [overlay_of_lookup_none hlookup, hρ (k, σ k) List.mem_cons_self]
  | put k v next =>
      cases hstep
      rw [h ρ hρ]
      simp only [Prog.run, overlay_cons]
  | call next =>
      cases hstep
      exact h ρ hρ
  | emit o next =>
      cases hstep
      rw [h ρ hρ]
      simp [Prog.run]

/-- A program that has ended has come to its writes. -/
theorem Follows.ended (h : t.Follows p) (hended : t.ended = true)
    (hseen : ∀ x ∈ t.seen, σ x.1 = x.2) : p.run σ = (overlay t.written σ, t.emitted) := by
  rw [h σ hseen]
  rcases t with ⟨prog, seen, written, emitted⟩
  cases prog with
  | ret r | raise => simp [Prog.run]
  | get | put | call | emit => cases hended

/-- What a step does to store and footprint. -/
inductive Moves (σ : K → V) (t : Thread K V O R) : (K → V) → Thread K V O R → Prop where
  | silent {t' : Thread K V O R} (hseen : t'.seen = t.seen) (hwritten : t'.written = t.written) :
      Moves σ t σ t'
  | saw {t' : Thread K V O R} (k : K) (next : V → Prog K V O R) (hprog : t.prog = .get k next)
      (hnone : t.written.lookup k = none) (hseen : t'.seen = (k, σ k) :: t.seen)
      (hwritten : t'.written = t.written) : Moves σ t σ t'
  | wrote {t' : Thread K V O R} (k : K) (v : V) (next : Prog K V O R)
      (hprog : t.prog = .put k v next) (hseen : t'.seen = t.seen)
      (hwritten : t'.written = (k, v) :: t.written) : Moves σ t (Function.update σ k v) t'

theorem moves_of_step (h : t.step σ = some (σ', t')) : t.Moves σ σ' t' := by
  rcases t with ⟨prog, seen, written, emitted⟩
  cases prog with
  | ret r | raise => cases h
  | get k next =>
      cases h
      cases hlookup : written.lookup k with
      | some v => exact .silent (by simp) rfl
      | none => exact .saw k next rfl hlookup (by simp) rfl
  | put k v next =>
      cases h
      exact .wrote k v next rfl rfl rfl
  | call next | emit o next =>
      cases h
      exact .silent rfl rfl

theorem reads_of_step {tracked : K → Prop} (hreads : t.prog.Reads tracked)
    (h : t.step σ = some (σ', t')) : t'.prog.Reads tracked := by
  rcases t with ⟨prog, seen, written, emitted⟩
  cases prog with
  | ret r | raise => cases h
  | get k next =>
      cases h
      exact hreads.2 _
  | put k v next | call next | emit o next =>
      cases h
      exact hreads

end Thread

end Schedule
