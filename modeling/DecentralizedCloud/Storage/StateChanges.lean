import Mathlib.Data.Fin.VecNotation
import DecentralizedCloud.Lib.Schedule
import DecentralizedCloud.Storage.Footprint

/-!
# State changes of different queues

`onStateChange` gives every queue key a worker of its own. The document commands
of one entity share a key, but adding, updating and deleting functions (or
templates) have three, although all of them read, patch and put back one root.
Nothing keeps their steps apart: a command may put back a root without the link
that another one has added since it read the root (`lost_link`).

The commands are serializable in every order such that no step reads a key that
a later command has put, or puts a key that a later command has read or put
(`state_changes_serializable`).
-/

namespace DecentralizedCloud.Storage

open Machine Schedule
open StateQueue (CommandInfo)

/-! ## What the commands read -/

/-- The keys outside the transaction tree. No command reads a key inside it. -/
def Tracked (key : String) : Prop := key.toList.take 3 ≠ (transactionKey "").toList

instance : DecidablePred Tracked := fun _ => inferInstanceAs (Decidable (_ ≠ _))

theorem tracked_rootKey (tree : String) : Tracked (rootKey tree) := by
  simp [Tracked, rootKey, transactionKey, transactionTree, String.toList_append]

section Reads

variable {S : Services} {x : CommandEnv}

/-- The program reads tracked keys only. -/
abbrev ReadsTracked {α : Type} (p : Cmd α) : Prop := p.Reads Tracked

theorem tracked_of_readBy {tid key : String} (h : ReadBy tid key) : Tracked key := by
  cases h with
  | root htree => exact tracked_rootKey _
  | dataRoot entityId => exact tracked_rootKey _
  | object htree objectId =>
      rcases htree with rfl | rfl <;>
        simp [Tracked, objectKey, transactionKey, transactionTree, functionTree, templateTree,
          String.toList_append]

/-- Every command reads tracked keys only. -/
theorem reads_stateChange (c : CommandInfo) : ReadsTracked (stateChange S x c) := by
  have hexecute : ∀ source channelId txid tid : String,
      ReadsTracked (executeStateChangeCommand S x c.command source channelId txid tid) := by
    intro source channelId txid tid
    have hconfined :=
      confined_executeStateChangeCommand S (sendsOnly_all x source) c.command channelId txid tid
    exact hconfined.1.mono fun _ => tracked_of_readBy
  have hraise : ∀ answer : Option String, ReadsTracked (orRaise answer) := by
    intro answer
    cases answer <;> trivial
  unfold stateChange
  split
  · unfold processCommand
    refine Prog.Reads.bind (hraise _) fun ws => Prog.Reads.bind (hraise _) fun k => ?_
    refine Prog.Reads.bind (hraise _) fun txid => Prog.Reads.bind (hraise _) fun tid => ?_
    exact hexecute ws k txid tid
  · trivial

end Reads

/-! ## Interleaved commands -/

/-- A run of commands that follows an order ends where executing the commands one
after another in that order does, at the roots, the objects and the documents. -/
theorem state_changes_serializable {n : Nat} (S : Services) (x : Fin n → CommandEnv)
    (commands : Fin n → CommandInfo) (dht : String → String) {order : List (Fin n)}
    (horder : order.Perm (List.finRange n)) {es : List (Schedule.Event n)}
    {s : State n String String Response Unit}
    (h : Trace (step fun i => queueKey (commands i)) (InOrder Tracked order)
      (.initial (fun i => stateChange S (x i) (commands i)) dht) es s)
    (hall : ∀ i, s.phase i = .finished) (key : String) (hkey : Tracked key) :
    s.store key = serial (fun i => stateChange S (x i) (commands i)) dht order key :=
  (serializable horder (fun i => reads_stateChange (commands i)) h hall).1 key hkey

namespace Sample

/-- The objects that the commands meet, under their hashes. -/
def objects : List (String × String × List (String × String)) :=
  [ ("f", "f", []), ("g", "g", []), ("e", "e", []),
    ("functions", "function_t", []), ("functions f", "function_t", [("f", "f")]),
    ("functions g", "function_t", [("g", "g")]),
    ("functions f g", "function_t", [("f", "f"), ("g", "g")]),
    ("templates", "template_t", []), ("templates e", "template_t", [("e", "e")]) ]

def hashOf (object : String × List (String × String)) : Option String :=
  (objects.find? fun known => known.2 = object).map (·.1)

def services : Services where
  parse _ := none
  dump _ := ""
  base64_decode text := if text = "Zw==" then "g" else ""
  iteration map := map
  objectPut data links := hashOf (data, links)
  objectLinks hash := (objects.lookup hash).map (·.2)
  objectData hash := (objects.lookup hash).map (·.1)
  objectPatchAddLink hash name target := do
    let (data, links) ← objects.lookup hash
    hashOf (data, links.filter (·.1 ≠ name) ++ [(name, target)])
  objectPatchRmLink hash name := do
    let (data, links) ← objects.lookup hash
    if (links.lookup name).isSome then hashOf (data, links.filter (·.1 ≠ name)) else none
  evaluate _ _ := none

def command (txid : String) (words : List String) : CommandInfo where
  fields := [("ws", "0"), ("k", "c"), ("txid", txid), ("tid", "t")]
  timestamp := 0
  command := words

def addFunction : CommandInfo := command "x1" ["3", "Zw=="]
def deleteFunction : CommandInfo := command "x2" ["9", "f"]
def deleteTemplate : CommandInfo := command "x3" ["7", "e"]

def commandEnv : CommandEnv := { guid := ⟨"g", by decide⟩, delivery := fun _ => .sent }

def otherTree : Fin 2 → CommandInfo := ![addFunction, deleteTemplate]
def sameTree : Fin 2 → CommandInfo := ![addFunction, deleteFunction]

def stateChanges (commands : Fin 2 → CommandInfo) : Fin 2 → Cmd Unit :=
  fun i => stateChange services commandEnv (commands i)

/-- A tenant with a function and a template. -/
def dht : String → String := fun key =>
  (List.lookup key
    [ (".function_t", "functions f"), ("function_t_f", "f"),
      (".template_t", "templates e"), ("template_t_e", "e") ]).getD ""

/-- Both commands have read their root before either puts one. -/
def overlapping : List (Schedule.Event 2) :=
  let first : Fin 2 := ⟨0, Nat.zero_lt_two⟩
  let second : Fin 2 := ⟨1, Nat.one_lt_two⟩
  [.start first, .start second] ++ List.replicate 6 (.step first) ++
    List.replicate 3 (.step second) ++ [.step first] ++ List.replicate 3 (.step second) ++
    [.finish first]

end Sample

/-- A function is added while a template is deleted. -/
theorem state_changes_serializable_other_tree :
    ∃ s, Trace (step fun i => queueKey (Sample.otherTree i)) (InOrder Tracked [0, 1])
        (.initial (Sample.stateChanges Sample.otherTree) Sample.dht)
        (Sample.overlapping ++ [.step 1, .finish 1]) s ∧
      s.store (rootKey "function_t") =
        serial (Sample.stateChanges Sample.otherTree) Sample.dht [0, 1] (rootKey "function_t") := by
  obtain ⟨s, htrace, hfinished⟩ :
      ∃ s, Trace (step fun i => queueKey (Sample.otherTree i)) (InOrder Tracked [0, 1])
          (.initial (Sample.stateChanges Sample.otherTree) Sample.dht)
          (Sample.overlapping ++ [.step 1, .finish 1]) s ∧
        decide (∀ i, s.phase i = .finished) = true :=
    exists_trace_of_exec _ (by decide +kernel)
  exact ⟨s, htrace, state_changes_serializable Sample.services (fun _ => Sample.commandEnv)
    Sample.otherTree Sample.dht (by decide) htrace (of_decide_eq_true hfinished) _
    (tracked_rootKey _)⟩

/-- Adding a function, and deleting another one: both have read the root before
either puts one back, and the link of the new function is gone. -/
theorem lost_link :
    ∃ s, Run (step fun i => queueKey (Sample.sameTree i))
        (.initial (Sample.stateChanges Sample.sameTree) Sample.dht)
        (Sample.overlapping ++ [.finish 1]) s ∧
      (∀ i, s.phase i = .finished) ∧
      ∀ order : List (Fin 2), order.Perm (List.finRange 2) →
        s.store (rootKey "function_t") ≠
          serial (Sample.stateChanges Sample.sameTree) Sample.dht order (rootKey "function_t") := by
  obtain ⟨s, hrun, hcheck⟩ :
      ∃ s, Run (step fun i => queueKey (Sample.sameTree i))
          (.initial (Sample.stateChanges Sample.sameTree) Sample.dht)
          (Sample.overlapping ++ [.finish 1]) s ∧
        decide ((∀ i, s.phase i = .finished) ∧
          s.store (rootKey "function_t") = "functions") = true :=
    exists_trace_of_exec _ (by decide +kernel)
  rcases of_decide_eq_true hcheck with ⟨hfinished, hroot⟩
  refine ⟨s, hrun, hfinished, ?_⟩
  intro order horder
  -- one after the other, in either order, the new function stays linked and the old one goes
  have hserial : ∀ i j : Fin 2, [i, j].Perm (List.finRange 2) →
      serial (Sample.stateChanges Sample.sameTree) Sample.dht [i, j] (rootKey "function_t") =
        "functions g" := by
    decide +kernel
  -- an order of the two commands is one of the two
  match order, horder, horder.length_eq with
  | [i, j], horder, _ =>
      rw [hroot, hserial i j horder]
      decide

end DecentralizedCloud.Storage
