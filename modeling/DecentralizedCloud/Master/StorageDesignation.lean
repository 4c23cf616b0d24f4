import DecentralizedCloud.Lib.Trace
import DecentralizedCloud.Master.Verification
import Mathlib.Logic.Function.Basic

/-!
# Designating a storage node

All masters have to send state changes to one storage node, and blocks to one.
The first master that needs it picks the node from its own list and puts it into
the DHT, where the others find it. Finding the entry empty and putting one are
two steps. Masters that meet in between pick a node each, every one from its own
list, in which the nodes stand in the order in which they have registered. What
a master has picked it never looks up again.

The calls of `getStateChangeStorageNode` and of `getBlockStorageNode` are taken
apart here into their accesses to the DHT and to the variable that holds the
node. Any number of masters make any number of calls, interleaved in any way.
Masters do agree as long as a call that finds the entry empty would pick what
the others know, or are about to put (`designation_agrees`).
-/

namespace DecentralizedCloud

open Machine Master

/-- What the two functions differ in. -/
structure Lookup where
  dhtKey : String
  atLeast : Nat
  index : Nat

def stateChangeLookup : Lookup := { dhtKey := "sn_state_change_key", atLeast := 2, index := 1 }

def blockLookup : Lookup := { dhtKey := "sn_block_close_key", atLeast := 1, index := 0 }

/-- Where a call stands. -/
inductive LookupState where
  | start
  /-- the node is not known, and there are enough storage nodes -/
  | checked
  /-- the answer of the DHT is assigned -/
  | fetched
  /-- the answer was empty -/
  | missing
  /-- the own choice is assigned -/
  | chosen
  | ended
deriving DecidableEq

/-- Calls of masters: the entry of the DHT, the variable of each master, and
where each call stands. -/
structure Designation (μ ι : Type) where
  stored : String
  known : μ → String
  call : ι → LookupState

section

variable {μ ι : Type} [DecidableEq μ] [DecidableEq ι]

/-- What a master picks from its list. -/
def choice (l : Lookup) (nodes : μ → NodeRegistry) (i : μ) : String :=
  (nodes i).getStorageNodeKey l.index

/-- The next step of a call of the master that owns it. -/
def designationStep (l : Lookup) (nodes : μ → NodeRegistry) (owner : ι → μ) :
    Step (Designation μ ι) ι :=
  fun s c =>
    let i := owner c
    match s.call c with
    | .start =>
        let next := if s.known i ≠ "" ∨ (nodes i).numberOfStorageNodes < l.atLeast
          then LookupState.ended else .checked
        some { s with call := Function.update s.call c next }
    | .checked =>
        some { s with
          known := Function.update s.known i s.stored
          call := Function.update s.call c .fetched }
    | .fetched =>
        let next := if s.known i = "" then LookupState.missing else .ended
        some { s with call := Function.update s.call c next }
    | .missing =>
        some { s with
          known := Function.update s.known i (choice l nodes i)
          call := Function.update s.call c .chosen }
    | .chosen =>
        some { s with
          stored := s.known i
          call := Function.update s.call c .ended }
    | .ended => none

/-- The call has asked the DHT, and may still put an entry. -/
def LookupState.Asking : LookupState → Prop
  | .fetched | .missing | .chosen => True
  | .start | .checked | .ended => False

/-- A call that finds the entry empty would pick what any master knows, and what
any call picks that has found it empty, too. -/
def Undisputed (l : Lookup) (nodes : μ → NodeRegistry) (owner : ι → μ) (s : Designation μ ι)
    (c : ι) : Prop :=
  s.call c = .checked → s.stored = "" →
    (∀ j, s.known j ≠ "" → s.known j = choice l nodes (owner c)) ∧
      ∀ d, (s.call d).Asking → choice l nodes (owner d) = choice l nodes (owner c)

/-- No master knows a node, and no call has begun. -/
def Designation.initial (stored : String) : Designation μ ι where
  stored
  known _ := ""
  call _ := .start

/-! ## A call by itself -/

variable {l : Lookup} {nodes : μ → NodeRegistry} {owner : ι → μ} {node : String}
  {s s' : Designation μ ι} {c : ι}

/-- The entry of the DHT after the effects of a call. -/
def storedAfter (stored : String) : List Effect → String
  | [] => stored
  | .dhtPut _ value _ :: effects => storedAfter value effects
  | _ :: effects => storedAfter stored effects

/-- A call that no other call interferes with does what `designateStorageNode` does. -/
theorem designation_alone {env : Env} (hcall : s.call c = .start)
    (hstored : env.dhtGet l.dhtKey = s.stored) (hnodes : env.nodes = nodes (owner c)) :
    ∃ cs s', Run (designationStep l nodes owner) s cs s' ∧ (∀ d ∈ cs, d = c) ∧
      s'.call c = .ended ∧
      s'.known (owner c) =
        (designateStorageNode env l.dhtKey l.atLeast l.index (s.known (owner c))).1 ∧
      s'.stored = storedAfter s.stored
        (designateStorageNode env l.dhtKey l.atLeast l.index (s.known (owner c))).2 := by
  unfold designateStorageNode
  by_cases hknown : s.known (owner c) = ""
  -- the node is known already: one step
  case neg =>
      refine ⟨[c], _, .snoc .nil trivial (by simp [designationStep, hcall, hknown]; rfl), ?_⟩
      simp [hknown, storedAfter]
  case pos =>
      by_cases hcount : (nodes (owner c)).numberOfStorageNodes < l.atLeast
      case pos =>
          refine ⟨[c], _, .snoc .nil trivial (by simp [designationStep, hcall, hcount]; rfl), ?_⟩
          simp [hknown, hnodes, hcount, storedAfter]
      case neg =>
          by_cases hempty : s.stored = ""
          case pos =>
              -- nothing is stored: the node is drawn, put, and read back
              refine ⟨[c, c, c, c, c], _, trace_of_exec
                (by simp [exec, designationStep, hcall, hknown, hcount, hempty]; rfl), ?_⟩
              simp [hknown, hnodes, hcount, hstored, hempty, storedAfter, choice]
          case neg =>
              -- what is stored is taken
              refine ⟨[c, c, c], _, trace_of_exec
                (by simp [exec, designationStep, hcall, hknown, hcount, hempty]; rfl), ?_⟩
              simp [hknown, hnodes, hcount, hstored, hempty, storedAfter]

/-! ## Agreement -/

/-- There is one node that all masters know, put and pick. -/
structure Designates (l : Lookup) (nodes : μ → NodeRegistry) (owner : ι → μ) (node : String)
    (s : Designation μ ι) : Prop where
  stored : s.stored = "" ∨ s.stored = node
  known : ∀ i, s.known i = "" ∨ s.known i = node
  /-- a call that has found the entry empty -/
  picks : ∀ c, s.call c = .missing ∨ s.call c = .chosen → choice l nodes (owner c) = node
  /-- a call that will find it so -/
  willPick : ∀ c, s.call c = .fetched → s.known (owner c) = "" → choice l nodes (owner c) = node

omit [DecidableEq μ] in
/-- A call moves on, and nothing else changes. -/
theorem Designates.move (h : Designates l nodes owner node s) {next : LookupState}
    (hpicks : next = .missing ∨ next = .chosen → choice l nodes (owner c) = node)
    (hwill : next = .fetched → s.known (owner c) = "" → choice l nodes (owner c) = node) :
    Designates l nodes owner node { s with call := Function.update s.call c next } := by
  refine ⟨h.stored, h.known, ?_, ?_⟩
  · intro d hd
    by_cases hdc : d = c
    · subst hdc
      exact hpicks (by simpa using hd)
    · exact h.picks d (by simpa [hdc] using hd)
  · intro d hd hempty
    by_cases hdc : d = c
    · subst hdc
      exact hwill (by simpa using hd) hempty
    · exact h.willPick d (by simpa [hdc] using hd) hempty

omit [DecidableEq ι] in
/-- A master learns a node. -/
theorem Designates.learn (h : Designates l nodes owner node s) {i : μ} {value : String}
    (hvalue : value = "" ∨ value = node)
    (hempty : value = "" → ∀ d, s.call d = .fetched → owner d = i →
      choice l nodes (owner d) = node) :
    Designates l nodes owner node { s with known := Function.update s.known i value } := by
  refine ⟨h.stored, ?_, h.picks, ?_⟩
  · intro j
    by_cases hj : j = i
    · subst hj
      simpa using hvalue
    · simpa [hj] using h.known j
  · intro d hd hknown
    by_cases hi : owner d = i
    · exact hempty (by simpa [hi] using hknown) d hd hi
    · exact h.willPick d hd (by simpa [hi] using hknown)

omit [DecidableEq μ] [DecidableEq ι] in
/-- The entry is put. -/
theorem Designates.put (h : Designates l nodes owner node s) (i : μ) :
    Designates l nodes owner node { s with stored := s.known i } :=
  ⟨h.known i, h.known, h.picks, h.willPick⟩

omit [DecidableEq μ] [DecidableEq ι] in
/-- An undisputed choice is what everybody designates, or nobody does yet. -/
theorem designates_of_undisputed (hok : Undisputed l nodes owner s c)
    (hcall : s.call c = .checked) (hstored : s.stored = "") :
    Designates l nodes owner (choice l nodes (owner c)) s := by
  rcases hok hcall hstored with ⟨hknown, hasking⟩
  constructor
  · exact .inl hstored
  · intro i
    by_cases hi : s.known i = ""
    · exact .inl hi
    · exact .inr (hknown i hi)
  · intro d hd
    apply hasking d
    rcases hd with hd | hd <;> simp [hd, LookupState.Asking]
  · intro d hd _
    apply hasking d
    simp [hd, LookupState.Asking]

/-- Every step of a lookup keeps the designation, as long as nobody disputes it. -/
theorem designates_step (h : Designates l nodes owner node s) (hok : Undisputed l nodes owner s c)
    (hstep : designationStep l nodes owner s c = some s') :
    ∃ node', Designates l nodes owner node' s' := by
  unfold designationStep at hstep
  dsimp only at hstep
  cases hcall : s.call c with
  | start =>
      rw [hcall] at hstep
      cases hstep
      refine ⟨node, h.move ?_ ?_⟩ <;> split <;> simp
  | checked =>
      rw [hcall] at hstep
      cases hstep
      by_cases hstored : s.stored = ""
      · -- the entry is empty, and the choice of this call is undisputed
        have hall := designates_of_undisputed hok hcall hstored
        refine ⟨choice l nodes (owner c), Designates.move (hall.learn hall.stored ?_) ?_ ?_⟩
        · intro _ d _ hi
          rw [hi]
        · simp
        · intro _ _
          rfl
      · refine ⟨node, Designates.move (h.learn h.stored ?_) ?_ ?_⟩
        · intro hempty
          exact absurd hempty hstored
        · simp
        · intro _ hempty
          exact absurd (by simpa using hempty) hstored
  | fetched =>
      rw [hcall] at hstep
      cases hstep
      refine ⟨node, h.move ?_ ?_⟩
      · split
        case isTrue hempty =>
            intro _
            exact h.willPick c hcall hempty
        case isFalse => simp
      · split <;> simp
  | missing =>
      rw [hcall] at hstep
      cases hstep
      have hpick : choice l nodes (owner c) = node := h.picks c (.inl hcall)
      refine ⟨node, Designates.move (h.learn (.inr hpick) ?_) ?_ ?_⟩
      · intro _ d _ hi
        rw [hi]
        exact hpick
      · intro _
        exact hpick
      · simp
  | chosen =>
      rw [hcall] at hstep
      cases hstep
      exact ⟨node, Designates.move (h.put (owner c)) (by simp) (by simp)⟩
  | ended =>
      rw [hcall] at hstep
      cases hstep

/-- In every run in which the choice of a call that finds the entry empty is
undisputed, any two masters that know a storage node know the same one. -/
theorem designation_agrees (l : Lookup) (nodes : μ → NodeRegistry) (owner : ι → μ)
    {stored : String} {cs : List ι}
    (h : Trace (designationStep l nodes owner) (Undisputed l nodes owner) (.initial stored) cs s)
    (i j : μ) (hi : s.known i ≠ "") (hj : s.known j ≠ "") : s.known i = s.known j := by
  have hinv : ∃ node, Designates l nodes owner node s := by
    refine h.invariant (fun _ s => ∃ node, Designates l nodes owner node s) ?_ ?_
    · refine ⟨stored, .inr rfl, ?_, ?_, ?_⟩ <;> simp [Designation.initial]
    · rintro _ s c s' ⟨node, hs⟩ hok hstep
      exact designates_step hs hok hstep
  rcases hinv with ⟨node, hnode⟩
  rw [(hnode.known i).resolve_left hi, (hnode.known j).resolve_left hj]

end

/-! ## Two masters -/

namespace Sample

def firstCall : Fin 2 := ⟨0, Nat.two_pos⟩
def secondCall : Fin 2 := ⟨1, Nat.one_lt_two⟩

/-- Both masters know the same two storage nodes, which have registered with them in
different orders. -/
def registries : Fin 2 → NodeRegistry := fun i =>
  { numberOfVerifiers := 0, verifierKeys := []
    numberOfStorageNodes := 2
    storageKeys := if i = firstCall then ["s1", "s2"] else ["s2", "s1"] }

/-- Each master makes one call. -/
abbrev twoMasters (l : Lookup) : Step (Designation (Fin 2) (Fin 2)) (Fin 2) :=
  designationStep l registries id

/-- The second call starts when the first has ended. -/
def inTurn : List (Fin 2) := List.replicate 5 firstCall ++ List.replicate 3 secondCall

/-- Both calls find the entry empty. -/
def together : List (Fin 2) :=
  List.replicate 3 firstCall ++ List.replicate 3 secondCall ++ List.replicate 2 firstCall ++
    List.replicate 2 secondCall

end Sample

instance : DecidablePred LookupState.Asking := fun x =>
  match x with
  | .fetched | .missing | .chosen => isTrue trivial
  | .start | .checked | .ended => isFalse id

instance {n m : Nat} (l : Lookup) (nodes : Fin n → NodeRegistry) (owner : Fin m → Fin n)
    (s : Designation (Fin n) (Fin m)) (c : Fin m) : Decidable (Undisputed l nodes owner s c) :=
  inferInstanceAs (Decidable (s.call c = .checked → s.stored = "" → _ ∧ _))

/-- Calls one after the other designate one node. -/
theorem designation_agrees_inTurn :
    ∃ s, Trace (Sample.twoMasters stateChangeLookup)
        (Undisputed stateChangeLookup Sample.registries id) (.initial "") Sample.inTurn s ∧
      s.known 0 = s.known 1 := by
  obtain ⟨s, htrace, hcheck⟩ :
      ∃ s, Trace (Sample.twoMasters stateChangeLookup)
          (Undisputed stateChangeLookup Sample.registries id) (.initial "") Sample.inTurn s ∧
        decide (s.known 0 ≠ "" ∧ s.known 1 ≠ "") = true :=
    exists_trace_of_exec _ (by decide +kernel)
  rcases of_decide_eq_true hcheck with ⟨hfirst, hsecond⟩
  exact ⟨s, htrace, designation_agrees _ _ _ htrace 0 1 hfirst hsecond⟩

/-- Calls that find the entry empty together end with two nodes, for state changes
and for blocks. -/
theorem designation_split :
    (∃ s, Run (Sample.twoMasters stateChangeLookup) (.initial "") Sample.together s ∧
        (∀ c, s.call c = .ended) ∧ s.known 0 = "s2" ∧ s.known 1 = "s1") ∧
      ∃ s, Run (Sample.twoMasters blockLookup) (.initial "") Sample.together s ∧
        (∀ c, s.call c = .ended) ∧ s.known 0 = "s1" ∧ s.known 1 = "s2" := by
  constructor
  · obtain ⟨s, hrun, hcheck⟩ :
        ∃ s, Run (Sample.twoMasters stateChangeLookup) (.initial "") Sample.together s ∧
          decide ((∀ c, s.call c = .ended) ∧ s.known 0 = "s2" ∧ s.known 1 = "s1") = true :=
      exists_trace_of_exec _ (by decide +kernel)
    exact ⟨s, hrun, of_decide_eq_true hcheck⟩
  · obtain ⟨s, hrun, hcheck⟩ :
        ∃ s, Run (Sample.twoMasters blockLookup) (.initial "") Sample.together s ∧
          decide ((∀ c, s.call c = .ended) ∧ s.known 0 = "s1" ∧ s.known 1 = "s2") = true :=
      exists_trace_of_exec _ (by decide +kernel)
    exact ⟨s, hrun, of_decide_eq_true hcheck⟩

end DecentralizedCloud
