import Mathlib.Data.List.Basic

/-!
# Traces of partial machines

A machine is a partial step function: `step s e = none` says that the event
`e` is not enabled in `s`. A `Trace` is a finite run of it, and carries a
condition that each of its steps meets in the state *before* the step:

* `Trace step ok s₀ es s`: the events `es` lead from `s₀` to `s`, and every
  step meets `ok`;
* `Run step s₀ es s`: the same with no condition.

Traces grow at their end, so an induction over one meets the last step last.
Invariants may speak about the history `es` as well as about the state, which
is how ghost counters (votes received, commands pushed) are stated without
adding them to the state. `logged` adds a history variable to a machine: a list
of what its steps put out, which no step reads. `beside` puts a machine beside
another one that it may look at, and each of them sees a run of its own.
-/

namespace Machine

universe u v

/-- A partial step function. -/
abbrev Step (σ : Type u) (ε : Type v) := σ → ε → Option σ

variable {σ : Type u} {ε : Type v}

/-- The events `es` lead from `s₀` to the last index, every step meeting `ok`. -/
inductive Trace (step : Step σ ε) (ok : σ → ε → Prop) (s₀ : σ) : List ε → σ → Prop where
  | nil : Trace step ok s₀ [] s₀
  | snoc {es : List ε} {s s' : σ} {e : ε} (h : Trace step ok s₀ es s) (hok : ok s e)
      (hstep : step s e = some s') : Trace step ok s₀ (es ++ [e]) s'

/-- A trace whose steps meet no condition. -/
abbrev Run (step : Step σ ε) (s₀ : σ) : List ε → σ → Prop :=
  Trace step (fun _ _ => True) s₀

/-- The executable form: run the events in order, stopping at one that is
disabled or does not meet the condition. -/
def exec (step : Step σ ε) (ok : σ → ε → Prop) [∀ s e, Decidable (ok s e)] (s : σ) :
    List ε → Option σ
  | [] => some s
  | e :: es => if ok s e then (step s e).bind fun s' => exec step ok s' es else none

/-- The same for events that are chosen in the states in which they happen. -/
def follow (step : Step σ ε) (ok : σ → ε → Prop) [∀ s e, Decidable (ok s e)] (s : σ) :
    List (σ → ε) → Option σ
  | [] => some s
  | e :: es => if ok s (e s) then (step s (e s)).bind fun s' => follow step ok s' es else none

/-- The machine with a history: `out s e s'` is added to it by the step from `s` to `s'`. -/
def logged {α : Type*} (step : Step σ ε) (out : σ → ε → σ → List α) : Step (σ × List α) ε :=
  fun s e => (step s.1 e).map fun s' => (s', s.2 ++ out s.1 e s')

/-- Two machines side by side, whose steps interleave. The second one may look at the first. -/
def beside {τ δ : Type*} (step : Step σ ε) (step' : σ → Step τ δ) : Step (σ × τ) (ε ⊕ δ) := fun s e =>
  match e with
  | .inl e => (step s.1 e).map fun t => (t, s.2)
  | .inr d => (step' s.1 s.2 d).map fun t => (s.1, t)

variable {step : Step σ ε} {ok : σ → ε → Prop} {s₀ s : σ} {es : List ε}

/-- A step of the machine with a history is a step of the machine. -/
theorem of_logged {α : Type*} {out : σ → ε → σ → List α} {s s' : σ × List α} {e : ε}
    (h : logged step out s e = some s') :
    step s.1 e = some s'.1 ∧ s'.2 = s.2 ++ out s.1 e s'.1 := by
  rcases Option.map_eq_some_iff.mp h with ⟨t, ht, rfl⟩
  exact ⟨ht, rfl⟩

/-- Invariant rule: an invariant over history and state that holds at the
start and is preserved by every enabled step that meets the condition holds
at the end of every trace. -/
theorem Trace.invariant (inv : List ε → σ → Prop) (hinit : inv [] s₀)
    (hstep : ∀ es s e s', inv es s → ok s e → step s e = some s' → inv (es ++ [e]) s')
    (h : Trace step ok s₀ es s) : inv es s := by
  induction h with
  | nil => exact hinit
  | snoc _ hok hs ih => exact hstep _ _ _ _ ih hok hs

/-- An invariant may be added to the condition that the steps meet. -/
theorem Trace.and_invariant {inv : σ → Prop} (hinit : inv s₀)
    (hstep : ∀ s e s', inv s → ok s e → step s e = some s' → inv s')
    (h : Trace step ok s₀ es s) : Trace step (fun s e => ok s e ∧ inv s) s₀ es s ∧ inv s := by
  induction h with
  | nil => exact ⟨.nil, hinit⟩
  | snoc _ hok hs ih => exact ⟨.snoc ih.1 ⟨hok, ih.2⟩ hs, hstep _ _ _ ih.2 hok hs⟩

/-- The condition may be weakened. -/
theorem Trace.imp {ok' : σ → ε → Prop} (h : Trace step ok s₀ es s)
    (hok : ∀ s e, ok s e → ok' s e) : Trace step ok' s₀ es s := by
  induction h with
  | nil => exact .nil
  | snoc _ hstep hs ih => exact .snoc ih (hok _ _ hstep) hs

/-- Without its condition, a trace is a run. -/
theorem Trace.run (h : Trace step ok s₀ es s) : Run step s₀ es s := h.imp fun _ _ _ => trivial

theorem Trace.single {t : σ} {e : ε} (hok : ok s₀ e) (hstep : step s₀ e = some t) :
    Trace step ok s₀ [e] t := by
  have hsnoc : Trace step ok s₀ ([] ++ [e]) t := .snoc .nil hok hstep
  exact hsnoc

/-- A run of the machine with a history is a run of the machine. -/
theorem run_of_logged {α : Type*} {out : σ → ε → σ → List α} {s₀ s : σ × List α}
    (h : Run (logged step out) s₀ es s) : Run step s₀.1 es s.1 := by
  induction h with
  | nil => exact .nil
  | snoc _ _ hs ih => exact .snoc ih trivial (of_logged hs).1

section Beside

variable {τ δ : Type*} {step' : σ → Step τ δ} {ok : σ × τ → ε ⊕ δ → Prop} {s₀ s s' : σ × τ}
  {es : List (ε ⊕ δ)}

theorem of_beside_inl {e : ε} (h : beside step step' s (.inl e) = some s') :
    step s.1 e = some s'.1 ∧ s'.2 = s.2 := by
  rcases Option.map_eq_some_iff.mp h with ⟨t, ht, rfl⟩
  exact ⟨ht, rfl⟩

theorem of_beside_inr {d : δ} (h : beside step step' s (.inr d) = some s') :
    step' s.1 s.2 d = some s'.2 ∧ s'.1 = s.1 := by
  rcases Option.map_eq_some_iff.mp h with ⟨t, ht, rfl⟩
  exact ⟨ht, rfl⟩

/-- The run of the first machine. -/
theorem Trace.left {okₗ : σ → ε → Prop} (h : Trace (beside step step') ok s₀ es s)
    (hok : ∀ s e, ok s (.inl e) → okₗ s.1 e) :
    Trace step okₗ s₀.1 (es.filterMap Sum.getLeft?) s.1 := by
  induction h with
  | nil => exact .nil
  | @snoc es s s' e _ hev hs ih =>
      rw [List.filterMap_append]
      cases e with
      | inl e => exact .snoc ih (hok s e hev) (of_beside_inl hs).1
      | inr d =>
          have hnone : List.filterMap Sum.getLeft? [(Sum.inr d : ε ⊕ δ)] = [] := rfl
          rw [(of_beside_inr hs).2, hnone, List.append_nil]
          exact ih

/-- The run of the second machine, whatever it has seen of the first one. -/
theorem Trace.right {step'' : Step τ δ} (h : Trace (beside step step') ok s₀ es s)
    (hstep : ∀ s t d t', step' s t d = some t' → step'' t d = some t') :
    Run step'' s₀.2 (es.filterMap Sum.getRight?) s.2 := by
  induction h with
  | nil => exact .nil
  | @snoc es s s' e _ _ hs ih =>
      rw [List.filterMap_append]
      cases e with
      | inl e =>
          have hnone : List.filterMap Sum.getRight? [(Sum.inl e : ε ⊕ δ)] = [] := rfl
          rw [(of_beside_inl hs).2, hnone, List.append_nil]
          exact ih
      | inr d => exact .snoc ih trivial (hstep _ _ _ _ (of_beside_inr hs).1)

/-- The first machine runs while the second one rests. -/
theorem Trace.inl {okₗ : σ → ε → Prop} {t t' : σ} {u : τ} {es : List ε}
    (h : Trace step okₗ t es t') (hok : ∀ t e, okₗ t e → ok (t, u) (.inl e)) :
    Trace (beside step step') ok (t, u) (es.map .inl) (t', u) := by
  induction h with
  | nil => exact .nil
  | snoc _ hev hs ih =>
      rw [List.map_append]
      exact .snoc ih (hok _ _ hev) (by rw [beside, hs, Option.map_some])

/-- The second machine runs while the first one rests. -/
theorem Trace.inr {okᵣ : τ → δ → Prop} {t : σ} {u u' : τ} {ds : List δ} {step'' : Step τ δ}
    (h : Trace step'' okᵣ u ds u') (hok : ∀ u d, okᵣ u d → ok (t, u) (.inr d))
    (hstep : ∀ u d, okᵣ u d → step' t u d = step'' u d) :
    Trace (beside step step') ok (t, u) (ds.map .inr) (t, u') := by
  induction h with
  | nil => exact .nil
  | snoc _ hev hs ih =>
      rw [List.map_append]
      exact .snoc ih (hok _ _ hev) (by rw [beside, hstep _ _ hev, hs, Option.map_some])

end Beside

/-- A trace may be prolonged at its front. -/
theorem Trace.cons {t : σ} {e : ε} (hok : ok s₀ e) (hstep : step s₀ e = some t)
    (h : Trace step ok t es s) : Trace step ok s₀ (e :: es) s := by
  induction h with
  | nil => exact .single hok hstep
  | snoc _ hok' hs ih => exact .snoc ih hok' hs

/-- A trace may be prolonged by another one. -/
theorem Trace.append {es' : List ε} {s' : σ} (h : Trace step ok s₀ es s)
    (h' : Trace step ok s es' s') : Trace step ok s₀ (es ++ es') s' := by
  induction h' with
  | nil =>
      rw [List.append_nil]
      exact h
  | snoc _ hok hs ih =>
      rw [← List.append_assoc]
      exact .snoc ih hok hs

/-- A trace may be cut. -/
theorem Trace.split {es₁ es₂ : List ε} (h : Trace step ok s₀ es s) (heq : es = es₁ ++ es₂) :
    ∃ t, Trace step ok s₀ es₁ t ∧ Trace step ok t es₂ s := by
  induction h generalizing es₂ with
  | nil =>
      rcases List.append_eq_nil_iff.mp heq.symm with ⟨rfl, rfl⟩
      exact ⟨s₀, .nil, .nil⟩
  | @snoc es t s e h hok hs ih =>
      rcases List.eq_nil_or_concat es₂ with rfl | ⟨es₂, e', rfl⟩
      · rw [List.append_nil] at heq
        subst heq
        exact ⟨s, .snoc h hok hs, .nil⟩
      · rw [List.concat_eq_append, ← List.append_assoc] at heq
        rcases List.append_inj' heq rfl with ⟨hfront, hlast⟩
        cases hlast
        rcases ih hfront with ⟨u, hfirst, hrest⟩
        rw [List.concat_eq_append]
        exact ⟨u, hfirst, .snoc hrest hok hs⟩

/-- The events of a run determine where it ends. -/
theorem Trace.unique {s' : σ} (h : Trace step ok s₀ es s) (h' : Run step s₀ es s') : s = s' := by
  induction h generalizing s' with
  | nil =>
      generalize heq : ([] : List ε) = es at h'
      cases h' with
      | nil => rfl
      | snoc => simp at heq
  | @snoc es t u e _ _ hs ih =>
      generalize heq : es ++ [e] = es' at h'
      cases h' with
      | nil => simp at heq
      | snoc h' _ hs' =>
          rcases List.append_inj' heq rfl with ⟨rfl, hlast⟩
          cases hlast
          cases ih h'
          exact Option.some.inj (hs.symm.trans hs')

/-- What `exec` computes is a trace. -/
theorem trace_of_exec [∀ s e, Decidable (ok s e)] (h : exec step ok s₀ es = some s) :
    Trace step ok s₀ es s := by
  induction es generalizing s₀ with
  | nil =>
      cases h
      exact .nil
  | cons e es ih =>
      simp only [exec] at h
      split at h
      case isTrue hok =>
          rcases Option.bind_eq_some_iff.mp h with ⟨s₁, hs₁, hrest⟩
          exact .cons hok hs₁ (ih hrest)
      case isFalse => cases h

/-- What `follow` computes is the end of a trace. -/
theorem exists_trace_of_follow [∀ s e, Decidable (ok s e)] (choices : List (σ → ε))
    (check : σ → Bool) (h : (follow step ok s₀ choices).any check = true) :
    ∃ es s, Trace step ok s₀ es s ∧ check s = true := by
  rcases (Option.any_eq_true _ _).mp h with ⟨s, hs, hcheck⟩
  have htrace : ∀ (choices : List (σ → ε)) (s₀ : σ), follow step ok s₀ choices = some s →
      ∃ es, Trace step ok s₀ es s := by
    intro choices
    induction choices with
    | nil =>
        intro s₀ hs
        cases hs
        exact ⟨[], .nil⟩
    | cons e choices ih =>
        intro s₀ hs
        simp only [follow] at hs
        split at hs
        case isTrue hok =>
            rcases Option.bind_eq_some_iff.mp hs with ⟨s₁, hs₁, hrest⟩
            rcases ih s₁ hrest with ⟨es, htrace⟩
            exact ⟨e s₀ :: es, .cons hok hs₁ htrace⟩
        case isFalse => cases hs
  rcases htrace choices s₀ hs with ⟨es, htrace⟩
  exact ⟨es, s, htrace, hcheck⟩

/-- A trace whose end passes a computed check. -/
theorem exists_trace_of_exec [∀ s e, Decidable (ok s e)] (check : σ → Bool)
    (h : (exec step ok s₀ es).any check = true) :
    ∃ s, Trace step ok s₀ es s ∧ check s = true := by
  rcases (Option.any_eq_true _ _).mp h with ⟨s, hs, hcheck⟩
  exact ⟨s, trace_of_exec hs, hcheck⟩

end Machine
