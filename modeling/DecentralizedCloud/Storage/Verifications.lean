import Mathlib.Data.Fin.VecNotation
import DecentralizedCloud.Lib.Schedule
import DecentralizedCloud.Lib.SharedCell
import DecentralizedCloud.Storage.Blocks
import DecentralizedCloud.Storage.ObjectStore

/-!
# Verifications of a block

The masters send their verifications of a block at about the same time, and a
storage node handles every message on a thread of its own. Each handler reads the
hash of the block, adds its verification to the object behind it, puts the hash of
the new object, and links it below the root of the blocks. No lock is held.

The handlers therefore are clients of a shared cell (`SharedCell`): the hash of the
block is what they append to, and the link below the root is what they publish
(`simulates_run`).
-/

namespace DecentralizedCloud.Storage

open Schedule Machine
open SharedCell (Access Client Orderly)

namespace Verifications

/-- A `verifyBlock` message for a block, with the verification that it brings. -/
structure Verification (S : Services) (blockId : String) where
  theFields : FieldValueMap
  block : Json
  blockId_eq : theFields.at? "b" = some blockId
  block_eq : ((theFields.at? "d").bind fun d => S.parse (S.base64_decode d)) = some block

section Handlers

variable (S : Services) (contents : String → Option Contents) (blockId : String)

/-- The object is a block with these verifications. -/
def Carries (hash : String) (v : List Json) : Prop :=
  ∃ data links members, contents hash = some (data, links) ∧ S.parse data = some (.obj members) ∧
    members.lookup "v" = some (.arr v)

def LinksTo (root name hash : String) : Prop :=
  ∃ data links, contents root = some (data, links) ∧ links name = some hash

/-- The block is stored under its key with each of the verifications once, and the link
below the root leads to it. -/
structure VerifiedBy (verifications : List Json) (dht : String → String) : Prop where
  block : ∃ v, Carries S contents (dht (blockKey blockId)) v ∧ v.Perm verifications
  linked : LinksTo contents (dht (rootKey blockTree)) blockId (dht (blockKey blockId))

/-- The access that the program makes next, if any: to the hash of the block, or to the
root in order to link it. -/
def access {n : Nat} (i : Fin n) : Cmd Unit → List (Access n)
  | .get key _ => if key = blockKey blockId then [.read i] else []
  | .put key _ _ =>
      if key = blockKey blockId then [.put i]
      else if key = rootKey blockTree then [.publish i]
      else []
  | .ret _ | .raise | .call _ | .emit _ _ => []

def accesses {n : Nat} (s : State n String String Response Unit) (e : Schedule.Event n) :
    List (Access n) :=
  match e with
  | .step i => access blockId i (s.thread i).prog
  | .start _ | .finish _ => []

section Access

variable {blockId} {n : Nat} {i : Fin n}

theorem rootKey_ne_blockKey (tree blockId : String) : rootKey tree ≠ blockKey blockId := by
  intro h
  have hlist := congrArg String.toList h
  simp [rootKey, blockKey, blockTree, String.toList_append] at hlist

theorem access_read (next : String → Cmd Unit) :
    access blockId i (.get (blockKey blockId) next) = [.read i] := if_pos rfl

theorem access_readRoot (next : String → Cmd Unit) :
    access blockId i (.get (rootKey blockTree) next) = [] := by
  rw [access, if_neg (rootKey_ne_blockKey _ _)]

theorem access_put (hash : String) (next : Cmd Unit) :
    access blockId i (.put (blockKey blockId) hash next) = [.put i] := if_pos rfl

theorem access_putRoot (root : String) (next : Cmd Unit) :
    access blockId i (.put (rootKey blockTree) root next) = [.publish i] := by
  rw [access, if_neg (rootKey_ne_blockKey _ _), if_pos rfl]

end Access

/-! ## The steps of a handler -/

/-- The verifications of the object. -/
def verificationsOf (hash : String) : List Json :=
  match (S.parse ((S.objectData hash).getD "")).bind (·.get? "v") with
  | some (.arr v) => v
  | _ => []

/-- The hash of the object with one more verification. -/
def verified (hash : String) (block : Json) : String :=
  ((do
    let object_json ← S.parse ((S.objectData hash).getD "")
    let (v, object_json) ← object_json.access "v"
    let v ← v.pushBack block
    let object_json ← object_json.setMember "v" v
    S.objectPut (S.dump object_json) []).getD "" : String)

/-- What the handler does once the new hash is put. -/
def link (objectHash : String) : Cmd Unit := do
  let _ ← dhtGet (rootKey blockTree)
  linkToRoot S blockTree blockId objectHash ""

/-- What the handler does with the hash that it has read. -/
def record (block : Json) (hash : String) : Cmd Unit := do
  let obj ← fetchObject S hash
  let object_json ← orRaise (S.parse obj)
  let (v, object_json) ← orRaise (object_json.access "v")
  let v ← orRaise (v.pushBack block)
  let object_json ← orRaise (object_json.setMember "v" v)
  let objectHash ← addObject S (S.dump object_json)
  dhtPut (blockKey blockId) objectHash
  link S blockId objectHash

/-- What `linkToRoot` does with the root that it has read. -/
def relink (objectHash rootHash : String) : Cmd Unit := do
  let rootHash ← (if rootHash = "" then addObjectAndLink S blockTree objectHash blockId
    else request (S.objectPatchAddLink rootHash blockId objectHash))
  dhtPut (rootKey blockTree) rootHash

/-- How far a handler is, the number of steps until its next access, and what is left of
it. -/
inductive Rest (m : Verification S blockId) : Client String → Nat → Cmd Unit → Prop where
  | start : Rest m .idle 0 (.get (blockKey blockId) (record S blockId m.block))
  | fetch {hash : String} (h : ∃ v, Carries S contents hash v) :
      Rest m (.holds hash) 2 (.call (.call (.put (blockKey blockId) (verified S hash m.block)
        (link S blockId (verified S hash m.block)))))
  | add {hash : String} (h : ∃ v, Carries S contents hash v) :
      Rest m (.holds hash) 1 (.call (.put (blockKey blockId) (verified S hash m.block)
        (link S blockId (verified S hash m.block))))
  | put {hash : String} (h : ∃ v, Carries S contents hash v) :
      Rest m (.holds hash) 0 (.put (blockKey blockId) (verified S hash m.block)
        (link S blockId (verified S hash m.block)))
  | link {hash : String} (h : contents hash ≠ none) :
      Rest m (.wrote hash) 3 (.get (rootKey blockTree) fun _ =>
        .get (rootKey blockTree) (relink S blockId hash))
  | linkToRoot {hash : String} (h : contents hash ≠ none) :
      Rest m (.wrote hash) 2 (.get (rootKey blockTree) (relink S blockId hash))
  | patch {hash root : String} (h : LinksTo contents root blockId hash) :
      Rest m (.wrote hash) 1 (.call (.put (rootKey blockTree) root (.ret ())))
  | publish {hash root : String} (h : LinksTo contents root blockId hash) :
      Rest m (.wrote hash) 0 (.put (rootKey blockTree) root (.ret ()))
  | done {hash : String} : Rest m (.published hash) 0 (.ret ())

variable {S contents blockId}

theorem LinksTo.unique {root name hash hash' : String} (h : LinksTo contents root name hash)
    (h' : LinksTo contents root name hash') : hash = hash' := by
  rcases h with ⟨data, links, hroot, hname⟩
  rcases h' with ⟨data', links', hroot', hname'⟩
  rw [hroot, Option.some.injEq, Prod.mk.injEq] at hroot'
  rw [hroot'.2, hname', Option.some.injEq] at hname
  exact hname.symm

variable (hS : S.Lawful contents)

include hS

theorem objectData_of_carries {hash : String} {v : List Json} (h : Carries S contents hash v) :
    ∃ members, S.parse ((S.objectData hash).getD "") = some (.obj members) ∧
      members.lookup "v" = some (.arr v) := by
  rcases h with ⟨data, links, members, hhash, hparse, hv⟩
  refine ⟨members, ?_, hv⟩
  rw [hS.objectData hhash, Option.getD_some, hparse]

theorem verificationsOf_of_carries {hash : String} {v : List Json}
    (h : Carries S contents hash v) : verificationsOf S hash = v := by
  rcases objectData_of_carries hS h with ⟨members, hparse, hv⟩
  simp [verificationsOf, hparse, Json.get?, hv]

/-- The handler comes to the new object. -/
theorem verified_eq {hash : String} {v : List Json} (h : Carries S contents hash v)
    (block : Json) : ∃ members, S.parse ((S.objectData hash).getD "") = some (.obj members) ∧
      members.lookup "v" = some (.arr v) ∧
      S.objectPut (S.dump (.obj (Json.insertMember "v" (.arr (v ++ [block])) members))) [] =
        some (verified S hash block) := by
  rcases objectData_of_carries hS h with ⟨members, hparse, hv⟩
  refine ⟨members, hparse, hv, ?_⟩
  rcases hS.objects.put_nil
      (S.dump (.obj (Json.insertMember "v" (.arr (v ++ [block])) members))) with ⟨hash', hput, -⟩
  have hput' : S.objectPut (S.dump (.obj (Json.insertMember "v" (.arr (v ++ [block])) members)))
    [] = some hash' := hput
  have hverified : verified S hash block = hash' := by
    simp [verified, hparse, Json.access, hv, Json.pushBack, Json.setMember, hput']
  rw [hput', hverified]

/-- The new object is a block again, and has one verification more. -/
theorem carries_verified {hash : String} {v : List Json} (h : Carries S contents hash v)
    {block : Json} (hblock : block.WellFormed) :
    Carries S contents (verified S hash block) (v ++ [block]) := by
  rcases verified_eq hS h block with ⟨members, hparse, hv, hput⟩
  have hold := hS.wellFormed hparse
  have hall : Json.WellFormed (.arr (v ++ [block])) := by
    rw [Json.wellFormed_arr, List.forall_mem_append, List.forall_mem_singleton]
    exact ⟨Json.wellFormed_arr.mp (hold.get? hv), hblock⟩
  refine ⟨_, _, _, hS.objectPut_eq_some.mp hput,
    hS.parse_dump (hold.insertMember (by decide) hall), ?_⟩
  rw [Json.lookup_insertMember, if_pos rfl]

/-- What a message brings has been parsed. -/
theorem Verification.wellFormed (m : Verification S blockId) : m.block.WellFormed := by
  rcases Option.bind_eq_some_iff.mp m.block_eq with ⟨d, -, hparse⟩
  exact hS.wellFormed hparse

theorem appends_verified {n : Nat} (messages : Fin n → Verification S blockId) :
    SharedCell.Appends (fun i => (messages i).block) (fun hash => ∃ v, Carries S contents hash v)
      (verified S) (verificationsOf S) := by
  rintro hash i ⟨v, hv⟩
  have hnew := carries_verified hS hv ((messages i).wellFormed hS)
  refine ⟨⟨_, hnew⟩, ?_⟩
  rw [verificationsOf_of_carries hS hv, verificationsOf_of_carries hS hnew]

omit hS in
theorem ne_none_of_carries {hash : String} (h : ∃ v, Carries S contents hash v) :
    contents hash ≠ none := by
  rcases h with ⟨v, data, links, members, hhash, -⟩
  simp [hhash]

omit hS in
theorem verifyBlock_eq (m : Verification S blockId) :
    verifyBlock S m.theFields = .get (blockKey blockId) (record S blockId m.block) := by
  rcases m with ⟨theFields, block, hb, hd⟩
  rcases Option.bind_eq_some_iff.mp hd with ⟨d, hd', hparse⟩
  unfold verifyBlock
  rw [hb, hd']
  simp only [orRaise, Prog.ret_bind, hparse]
  rfl

/-- Recording a verification puts the block with it, and links it. -/
theorem record_eq {hash : String} (h : ∃ v, Carries S contents hash v) (block : Json) :
    record S blockId block hash = .call (.call (.put (blockKey blockId) (verified S hash block)
      (link S blockId (verified S hash block)))) := by
  rcases h with ⟨v, hv⟩
  rcases verified_eq hS hv block with ⟨members, hread, hlookup, hput⟩
  have haccess : (Json.obj members).access "v" = some (.arr v, .obj members) :=
    access_of_get? hlookup
  show Prog.call (do
    let object_json ← orRaise (S.parse ((S.objectData hash).getD ""))
    let (v, object_json) ← orRaise (object_json.access "v")
    let v ← orRaise (v.pushBack block)
    let object_json ← orRaise (object_json.setMember "v" v)
    let objectHash ← addObject S (S.dump object_json)
    dhtPut (blockKey blockId) objectHash
    link S blockId objectHash) = _
  rw [hread]
  simp only [orRaise, Prog.ret_bind, haccess, Json.pushBack, Json.setMember]
  show Prog.call (.call (.put (blockKey blockId) ((S.objectPut _ []).getD "")
    (link S blockId ((S.objectPut _ []).getD "")))) = _
  rw [hput]
  rfl

theorem relink_eq {hash hash' rootHash : String} (h : contents hash ≠ none)
    (hroot : LinksTo contents rootHash blockId hash') :
    ∃ root, LinksTo contents root blockId hash ∧
      relink S blockId hash rootHash = .call (.put (rootKey blockTree) root (.ret ())) := by
  rcases hroot with ⟨data, links, hroot, -⟩
  rcases hS.objects.patch_addLink hroot blockId h with ⟨root, hadd, hcontents⟩
  have hadd' : S.objectPatchAddLink rootHash blockId hash = some root := hadd
  refine ⟨root, ⟨data, _, hcontents, Function.update_self ..⟩, ?_⟩
  unfold relink
  rw [if_neg (hS.ne_empty hroot), hadd']
  rfl

end Handlers

/-! ## Handlers as clients of a shared cell -/

section Simulation

variable {S : Services} {contents : String → Option Contents} {blockId : String} {n : Nat}

/-- Between two accesses a handler goes on by itself. -/
theorem Rest.silent (hS : S.Lawful contents) {m : Verification S blockId} {client : Client String}
    {k : Nat} {thread : Thread String String Response Unit} {σ : String → String} {hash : String}
    (h : Rest S contents blockId m client (k + 1) thread.prog)
    (hroot : LinksTo contents (σ (rootKey blockTree)) blockId hash) (i : Fin n) :
    access blockId i thread.prog = [] ∧ ∃ thread', thread.step σ = some (σ, thread') ∧
      Rest S contents blockId m client k thread'.prog := by
  rcases thread with ⟨prog, seen, written, emitted⟩
  cases h with
  | fetch hcarries => exact ⟨rfl, _, rfl, .add hcarries⟩
  | add hcarries => exact ⟨rfl, _, rfl, .put hcarries⟩
  | link hhash => exact ⟨access_readRoot _, _, rfl, .linkToRoot hhash⟩
  | @linkToRoot hash' hhash =>
      rcases relink_eq hS hhash hroot with ⟨root, hlinks, hrelink⟩
      refine ⟨access_readRoot _, _, rfl, ?_⟩
      dsimp only
      rw [hrelink]
      exact .patch hlinks
  | patch hlinks => exact ⟨rfl, _, rfl, .publish hlinks⟩

/-- The handlers as they are, and as clients that append to the hash of the block. -/
structure Simulates (S : Services) (contents : String → Option Contents)
    (messages : Fin n → Verification S blockId) (s : State n String String Response Unit)
    (t : SharedCell.State n String) : Prop where
  cell : t.cell = s.store (blockKey blockId)
  carries : ∃ v, Carries S contents t.cell v
  published : LinksTo contents (s.store (rootKey blockTree)) blockId t.published
  rest : ∀ i, ∃ k, Rest S contents blockId (messages i) (t.client i) k (s.thread i).prog

variable {messages : Fin n → Verification S blockId} {s s' : State n String String Response Unit}
  {t t' : SharedCell.State n String} {i : Fin n}

/-- What the client appends, and to what. -/
abbrev clientStep (messages : Fin n → Verification S blockId) :
    Step (SharedCell.State n String) (Access n) :=
  SharedCell.step (verified S) fun i => (messages i).block

/-- The machine of the handlers with its accesses. -/
abbrev handlerStep (blockId : String) (n : Nat) :
    Step (State n String String Response Unit × List (Access n)) (Schedule.Event n) :=
  logged (Schedule.step id) fun s e _ => accesses blockId s e

/-- A thread that moves on by itself. -/
theorem Simulates.silent (h : Simulates S contents messages s t)
    {thread : Thread String String Response Unit} {k : Nat}
    (hrest : Rest S contents blockId (messages i) (t.client i) k thread.prog) :
    Simulates S contents messages { s with thread := Function.update s.thread i thread } t where
  cell := h.cell
  carries := h.carries
  published := h.published
  rest := by
    intro j
    by_cases hj : j = i
    · subst hj
      exact ⟨k, by simpa using hrest⟩
    · simpa [hj] using h.rest j

theorem Simulates.move {client : Client String} {thread : Thread String String Response Unit}
    {k : Nat} (h : Simulates S contents messages s t)
    (hrest : Rest S contents blockId (messages i) client k thread.prog) (j : Fin n) :
    ∃ k, Rest S contents blockId (messages j) (Function.update t.client i client j) k
      (Function.update s.thread i thread j).prog := by
  by_cases hj : j = i
  · subst hj
    exact ⟨k, by simpa using hrest⟩
  · simpa [hj] using h.rest j

/-- An access of a handler is one of the client, and the other way round. -/
theorem Simulates.access (hS : S.Lawful contents) (h : Simulates S contents messages s t)
    (hrest : Rest S contents blockId (messages i) (t.client i) 0 (s.thread i).prog)
    {σ : String → String} {thread : Thread String String Response Unit}
    (hstep : (s.thread i).step s.store = some (σ, thread)) :
    ∃ a t', access blockId i (s.thread i).prog = [a] ∧ clientStep messages t a = some t' ∧
      Simulates S contents messages
        { s with store := σ, thread := Function.update s.thread i thread } t' := by
  rcases hthread : s.thread i with ⟨prog, seen, written, emitted⟩
  rw [hthread] at hrest hstep
  generalize hclient : t.client i = client at hrest
  have hkeys : rootKey blockTree ≠ blockKey blockId := rootKey_ne_blockKey _ _
  cases hrest with
  -- the cell is read
  | start =>
      cases hstep
      refine ⟨_, _, access_read _, SharedCell.step_read.mpr ⟨hclient, rfl⟩, h.cell, h.carries,
        h.published, ?_⟩
      have hnext : Rest S contents blockId (messages i) (.holds t.cell) 2
          (record S blockId (messages i).block (s.store (blockKey blockId))) := by
        rw [← h.cell, record_eq hS h.carries]
        exact .fetch h.carries
      exact h.move hnext
  -- the object with the new message is put, and linked under the block
  | @put hash hcarries =>
      cases hstep
      have hnew := (appends_verified hS messages _ i hcarries).1
      refine ⟨_, _, access_put _ _, SharedCell.step_put.mpr ⟨hash, hclient, rfl⟩, ?_, hnew, ?_, ?_⟩
      · dsimp only
        rw [Function.update_self]
      · dsimp only
        rw [Function.update_of_ne hkeys]
        exact h.published
      · exact h.move (.link (ne_none_of_carries hnew))
  -- the root of the blocks changes, and the cell does not
  | @publish hash root hroot =>
      cases hstep
      refine ⟨_, _, access_putRoot _ _,
        SharedCell.step_publish.mpr ⟨hash, hclient, rfl⟩, ?_, h.carries, ?_, ?_⟩
      · dsimp only
        rw [Function.update_of_ne hkeys.symm]
        exact h.cell
      · dsimp only
        rw [Function.update_self]
        exact hroot
      · exact h.move .done
  | done => cases hstep

/-- A step of a handler is one of the client, or none. -/
theorem Simulates.step (hS : S.Lawful contents) (h : Simulates S contents messages s t)
    {σ : String → String} {thread : Thread String String Response Unit}
    (hstep : (s.thread i).step s.store = some (σ, thread)) :
    ∃ t', Run (clientStep messages) t (accesses blockId s (.step i)) t' ∧
      Simulates S contents messages
        { s with store := σ, thread := Function.update s.thread i thread } t' := by
  rcases h.rest i with ⟨_ | k, hrest⟩
  · rcases h.access hS hrest hstep with ⟨a, t', haccess, hclient, hsimulates⟩
    refine ⟨t', ?_, hsimulates⟩
    rw [accesses, haccess]
    exact .single trivial hclient
  · rcases hrest.silent hS h.published i with ⟨haccess, thread', hstep', hrest'⟩
    rw [hstep'] at hstep
    cases hstep
    refine ⟨t, ?_, h.silent hrest'⟩
    rw [accesses, haccess]
    exact .nil

theorem simulates_initial {σ : String → String}
    (hroot : LinksTo contents (σ (rootKey blockTree)) blockId (σ (blockKey blockId)))
    (hblock : ∃ v, Carries S contents (σ (blockKey blockId)) v) :
    Simulates S contents messages (.initial (fun i => verifyBlock S (messages i).theFields) σ)
      (.initial (σ (blockKey blockId))) := by
  refine ⟨rfl, hblock, hroot, ?_⟩
  intro i
  refine ⟨0, ?_⟩
  show Rest S contents blockId (messages i) .idle 0 (verifyBlock S (messages i).theFields)
  rw [verifyBlock_eq]
  exact .start

/-- Every run of the handlers is one of the clients, with the accesses as its history. -/
theorem simulates_run (hS : S.Lawful contents) {σ : String → String} {es : List (Schedule.Event n)}
    {log : List (Access n)}
    (hroot : LinksTo contents (σ (rootKey blockTree)) blockId (σ (blockKey blockId)))
    (hblock : ∃ v, Carries S contents (σ (blockKey blockId)) v)
    (h : Run (handlerStep blockId n)
      (.initial (fun i => verifyBlock S (messages i).theFields) σ, []) es (s, log)) :
    ∃ t, Run (clientStep messages) (.initial (σ (blockKey blockId))) log t ∧
      Simulates S contents messages s t := by
  refine h.invariant (fun _ s => ∃ t, Run (clientStep messages)
    (.initial (σ (blockKey blockId))) s.2 t ∧ Simulates S contents messages s.1 t) ?_ ?_
  · exact ⟨_, .nil, simulates_initial hroot hblock⟩
  · rintro - ⟨s, log⟩ e ⟨s', log'⟩ ⟨t, hrun, hsimulates⟩ - hstep
    rcases of_logged hstep with ⟨hstep, rfl⟩
    cases e with
    -- starting and finishing touch nothing
    | start i =>
        simp only [Schedule.step] at hstep
        split at hstep <;> cases hstep
        rw [accesses, List.append_nil]
        exact ⟨t, hrun, hsimulates.cell, hsimulates.carries, hsimulates.published,
          hsimulates.rest⟩
    -- a step is one access
    | step i =>
        simp only [Schedule.step] at hstep
        split at hstep
        case isTrue =>
            rcases Option.map_eq_some_iff.mp hstep with ⟨⟨σ', thread⟩, hmove, rfl⟩
            rcases hsimulates.step hS hmove with ⟨t', hrun', hsimulates'⟩
            exact ⟨t', hrun.append hrun', hsimulates'⟩
        case isFalse => cases hstep
    | finish i =>
        simp only [Schedule.step] at hstep
        split at hstep <;> cases hstep
        rw [accesses, List.append_nil]
        exact ⟨t, hrun, hsimulates.cell, hsimulates.carries, hsimulates.published,
          hsimulates.rest⟩

/-- A handler that has ended has linked its object. -/
theorem published_of_ended {m : Verification S blockId} {client : Client String} {k : Nat}
    {thread : Thread String String Response Unit}
    (h : Rest S contents blockId m client k thread.prog) (hended : thread.ended = true) :
    ∃ hash, client = .published hash := by
  rcases thread with ⟨prog, seen, written, emitted⟩
  cases h with
  | done => exact ⟨_, rfl⟩
  | start | fetch | add | put | link | linkToRoot | patch | publish => cases hended

/-- What the block carries, and where the root leads, can be told from the clients. -/
theorem Simulates.verifiedBy_iff (hS : S.Lawful contents) (h : Simulates S contents messages s t)
    (verifications : List Json) : VerifiedBy S contents blockId verifications s.store ↔
      (verificationsOf S t.cell).Perm verifications ∧ t.published = t.cell := by
  constructor
  · rintro ⟨⟨v, hv, hperm⟩, hlinked⟩
    rw [← h.cell] at hv hlinked
    rw [verificationsOf_of_carries hS hv]
    exact ⟨hperm, h.published.unique hlinked⟩
  · rintro ⟨hperm, hpublished⟩
    rcases h.carries with ⟨v, hv⟩
    rw [verificationsOf_of_carries hS hv] at hperm
    refine ⟨⟨v, ?_, hperm⟩, ?_⟩
    · rwa [← h.cell]
    · rw [← h.cell, ← hpublished]
      exact h.published

/-! ### Every history of the clients occurs -/

/-- The handlers that simulate the clients after more steps, none of which is an access. -/
def Catches (messages : Fin n → Verification S blockId) (contents : String → Option Contents)
    (log : List (Access n)) (t : SharedCell.State n String)
    (s s' : State n String String Response Unit) : Prop :=
  ∃ es, Run (handlerStep blockId n) (s, log) es (s', log) ∧ Simulates S contents messages s' t

/-- A handler that waits can be started. -/
theorem Simulates.start (h : Simulates S contents messages s t) (log : List (Access n))
    (hi : s.phase i ≠ .finished) :
    ∃ s', Catches messages contents log t s s' ∧ s'.phase = Function.update s.phase i .running := by
  cases hphase : s.phase i with
  | running => exact ⟨s, ⟨[], .nil, h⟩, by rw [← hphase, Function.update_eq_self]⟩
  | finished => exact absurd hphase hi
  | waiting =>
      have hqueue : ∀ j, s.phase j = .running → id j ≠ id i := by
        intro j hj hji
        have hji' : j = i := hji
        rw [hji', hphase] at hj
        cases hj
      have hstep : handlerStep blockId n (s, log) (.start i) =
          some ({ s with phase := Function.update s.phase i .running }, log) := by
        simp only [logged, Schedule.step, accesses, List.append_nil]
        rw [if_pos ⟨hphase, hqueue⟩]
        rfl
      exact ⟨_, ⟨[.start i], .single trivial hstep, h.cell, h.carries, h.published, h.rest⟩, rfl⟩

/-- A handler that runs comes to its next access. -/
theorem Simulates.approach (hS : S.Lawful contents) (h : Simulates S contents messages s t)
    (log : List (Access n)) (hrunning : s.phase i = .running) :
    ∃ s', Catches messages contents log t s s' ∧ s'.phase = s.phase ∧
      Rest S contents blockId (messages i) (t.client i) 0 (s'.thread i).prog := by
  rcases h.rest i with ⟨k, hrest⟩
  induction k generalizing s with
  | zero => exact ⟨s, ⟨[], .nil, h⟩, rfl, hrest⟩
  | succ k ih =>
      rcases hrest.silent hS h.published i with ⟨haccess, thread, hthread, hrest'⟩
      have hstep : handlerStep blockId n (s, log) (.step i) =
          some ({ s with thread := Function.update s.thread i thread }, log) := by
        simp [logged, Schedule.step, hrunning, hthread, accesses, haccess]
      have hrest'' : Rest S contents blockId (messages i) (t.client i) k
          (Function.update s.thread i thread i).prog := by
        rwa [Function.update_self]
      rcases ih (h.silent hrest') hrunning hrest'' with ⟨s', ⟨es, hrun, hsimulates⟩, hs'⟩
      exact ⟨s', ⟨.step i :: es, hrun.cons trivial hstep, hsimulates⟩, hs'⟩

/-- At an access the handler does what its client does. -/
theorem Simulates.follow (hS : S.Lawful contents) (h : Simulates S contents messages s t)
    (log : List (Access n)) (hrunning : s.phase i = .running)
    (hrest : Rest S contents blockId (messages i) (t.client i) 0 (s.thread i).prog)
    {a : Access n} (haccess : Verifications.access blockId i (s.thread i).prog = [a])
    (hclient : clientStep messages t a = some t') :
    ∃ s', Run (handlerStep blockId n) (s, log) [.step i] (s', log ++ [a]) ∧
      Simulates S contents messages s' t' ∧ s'.phase = s.phase := by
  -- a program that makes an access has not ended
  obtain ⟨⟨σ, thread⟩, hstep⟩ : ∃ next, (s.thread i).step s.store = some next := by
    rcases hthread : s.thread i with ⟨prog, seen, written, emitted⟩
    rw [hthread] at haccess
    cases prog with
    | get | put | call | emit => exact ⟨_, rfl⟩
    | ret | raise => cases haccess
  rcases h.access hS hrest hstep with ⟨a', t'', haccess', hclient', hsimulates⟩
  rw [haccess, List.singleton_inj] at haccess'
  subst haccess'
  rw [hclient, Option.some.injEq] at hclient'
  subst hclient'
  have hmove : handlerStep blockId n (s, log) (.step i) =
      some ({ s with store := σ, thread := Function.update s.thread i thread }, log ++ [a]) := by
    simp [logged, Schedule.step, hrunning, hstep, accesses, haccess]
  exact ⟨_, .single trivial hmove, hsimulates, rfl⟩

/-- The client that makes an access. -/
def clientOf : Access n → Fin n
  | .read i | .put i | .publish i => i

/-- A handler that is at an access makes the one that its client can make. -/
theorem access_of_clientStep {a : Access n} {prog : Cmd Unit}
    (hrest : Rest S contents blockId (messages (clientOf a)) (t.client (clientOf a)) 0 prog)
    (hclient : clientStep messages t a = some t') : access blockId (clientOf a) prog = [a] := by
  cases a with
  | read i =>
      rcases SharedCell.step_read.mp hclient with ⟨hi, -⟩
      simp only [clientOf, hi] at hrest ⊢
      cases hrest
      exact access_read _
  | put i =>
      rcases SharedCell.step_put.mp hclient with ⟨hash, hi, -⟩
      simp only [clientOf, hi] at hrest ⊢
      cases hrest
      exact access_put _ _
  | publish i =>
      rcases SharedCell.step_publish.mp hclient with ⟨hash, hi, -⟩
      simp only [clientOf, hi] at hrest ⊢
      cases hrest
      exact access_putRoot _ _

/-- The handlers can make every access that the clients can. -/
theorem Simulates.catchUp (hS : S.Lawful contents) (h : Simulates S contents messages s t)
    (log : List (Access n)) (hactive : ∀ j, s.phase j ≠ .finished) {a : Access n}
    (hclient : clientStep messages t a = some t') :
    ∃ es s', Run (handlerStep blockId n) (s, log) es (s', log ++ [a]) ∧
      Simulates S contents messages s' t' ∧ ∀ j, s'.phase j ≠ .finished := by
  rcases h.start log (hactive (clientOf a)) with ⟨s₁, ⟨es₁, hrun₁, h₁⟩, hphase₁⟩
  have hrunning : s₁.phase (clientOf a) = .running := by
    rw [hphase₁, Function.update_self]
  rcases h₁.approach hS log hrunning with ⟨s₂, ⟨es₂, hrun₂, h₂⟩, hphase₂, hrest⟩
  rw [← hphase₂] at hrunning
  rcases h₂.follow hS log hrunning hrest (access_of_clientStep hrest hclient) hclient with
    ⟨s₃, hrun₃, h₃, hphase₃⟩
  refine ⟨_, s₃, (hrun₁.append hrun₂).append hrun₃, h₃, ?_⟩
  rw [hphase₃, hphase₂, hphase₁]
  intro j
  by_cases hj : j = clientOf a
  · rw [hj, Function.update_self]
    exact nofun
  · rw [Function.update_of_ne hj]
    exact hactive j

/-- A handler whose client is through can be finished. -/
theorem Simulates.finish (hS : S.Lawful contents) (h : Simulates S contents messages s t)
    (log : List (Access n)) {hash : String} (hdone : t.client i = .published hash) :
    ∃ s', Catches messages contents log t s s' ∧
      s'.phase = Function.update s.phase i .finished := by
  by_cases hi : s.phase i = .finished
  · exact ⟨s, ⟨[], .nil, h⟩, by rw [← hi, Function.update_eq_self]⟩
  · rcases h.start log hi with ⟨s₁, ⟨es₁, hrun₁, h₁⟩, hphase₁⟩
    have hrunning : s₁.phase i = .running := by
      rw [hphase₁, Function.update_self]
    rcases h₁.approach hS log hrunning with ⟨s₂, ⟨es₂, hrun₂, h₂⟩, hphase₂, hrest⟩
    rw [← hphase₂] at hrunning
    have hended : (s₂.thread i).ended = true := by
      rw [hdone] at hrest
      rcases hthread : s₂.thread i with ⟨prog, seen, written, emitted⟩
      rw [hthread] at hrest
      cases hrest
      rfl
    have hstep : handlerStep blockId n (s₂, log) (.finish i) =
        some ({ s₂ with phase := Function.update s₂.phase i .finished }, log) := by
      simp [logged, Schedule.step, hrunning, hended, accesses]
    refine ⟨_, ⟨_, (hrun₁.append hrun₂).append (.single trivial hstep), h₂.cell, h₂.carries,
      h₂.published, h₂.rest⟩, ?_⟩
    rw [hphase₂, hphase₁, Function.update_idem]

/-- When all clients have published, all handlers can finish. -/
theorem Simulates.finishAll (hS : S.Lawful contents) (h : Simulates S contents messages s t)
    (log : List (Access n)) (hdone : ∀ i, ∃ hash, t.client i = .published hash)
    (l : List (Fin n)) :
    ∃ s', Catches messages contents log t s s' ∧ ∀ i ∈ l, s'.phase i = .finished := by
  induction l with
  | nil => exact ⟨s, ⟨[], .nil, h⟩, nofun⟩
  | cons i l ih =>
      rcases ih with ⟨s₁, ⟨es₁, hrun₁, h₁⟩, hl⟩
      rcases hdone i with ⟨hash, hi⟩
      rcases h₁.finish hS log hi with ⟨s₂, ⟨es₂, hrun₂, h₂⟩, hphase⟩
      refine ⟨s₂, ⟨_, hrun₁.append hrun₂, h₂⟩, ?_⟩
      intro j hj
      rw [hphase]
      by_cases hji : j = i
      · rw [hji, Function.update_self]
      · rw [Function.update_of_ne hji]
        exact hl j ((List.mem_cons.mp hj).resolve_left hji)

/-- Every history of clients that are all through is that of handlers that finish. -/
theorem exists_run (hS : S.Lawful contents) {σ : String → String} {log : List (Access n)}
    (hroot : LinksTo contents (σ (rootKey blockTree)) blockId (σ (blockKey blockId)))
    (hblock : ∃ v, Carries S contents (σ (blockKey blockId)) v)
    (h : Run (clientStep messages) (.initial (σ (blockKey blockId))) log t)
    (hdone : ∀ i, ∃ hash, t.client i = .published hash) :
    ∃ es s, Run (handlerStep blockId n)
        (.initial (fun i => verifyBlock S (messages i).theFields) σ, []) es (s, log) ∧
      (∀ i, s.phase i = .finished) ∧ Simulates S contents messages s t := by
  have hcatch : ∃ es s, Run (handlerStep blockId n)
      (.initial (fun i => verifyBlock S (messages i).theFields) σ, []) es (s, log) ∧
        Simulates S contents messages s t ∧ ∀ j, s.phase j ≠ .finished := by
    clear hdone
    induction h with
    | nil => exact ⟨[], _, .nil, simulates_initial hroot hblock, nofun⟩
    | snoc _ _ hclient ih =>
        rcases ih with ⟨es, s, hrun, hsimulates, hactive⟩
        rcases hsimulates.catchUp hS _ hactive hclient with ⟨es', s', hrun', hs'⟩
        exact ⟨_, s', hrun.append hrun', hs'⟩
  rcases hcatch with ⟨es, s, hrun, hsimulates, -⟩
  rcases hsimulates.finishAll hS log hdone (List.finRange n) with ⟨s', ⟨es', hrun', h'⟩, hfinished⟩
  exact ⟨_, s', hrun.append hrun', fun i => hfinished i (List.mem_finRange i), h'⟩

end Simulation

/-- Once all handlers of the verifications of a block have finished, the block carries each
of them exactly when their accesses were orderly. -/
theorem verifications_kept_iff {S : Services} {contents : String → Option Contents}
    (hS : S.Lawful contents) {blockId : String} {n : Nat}
    (messages : Fin n → Verification S blockId) {verifications : List Json}
    {dht : String → String} (hdht : VerifiedBy S contents blockId verifications dht)
    {es : List (Schedule.Event n)} {s : State n String String Response Unit} {log : List (Access n)}
    (h : Run (handlerStep blockId n)
      (.initial (fun i => verifyBlock S (messages i).theFields) dht, []) es (s, log))
    (hfinished : ∀ i, s.phase i = .finished) :
    VerifiedBy S contents blockId (verifications ++ List.ofFn fun i => (messages i).block)
        s.store ↔
      Orderly log := by
  rcases hdht.block with ⟨v, hv, hperm⟩
  rcases simulates_run hS hdht.linked ⟨v, hv⟩ h with ⟨t, hrun, hsimulates⟩
  have hdone : ∀ i, ∃ hash, t.client i = .published hash := by
    intro i
    rcases hsimulates.rest i with ⟨k, hrest⟩
    exact published_of_ended hrest (ended_of_finished (run_of_logged h) i (hfinished i))
  rw [← SharedCell.kept_iff_orderly (appends_verified hS messages) ⟨v, hv⟩ hrun hdone,
    hsimulates.verifiedBy_iff hS, verificationsOf_of_carries hS hv,
    (hperm.append_right _).congr_right]

section Orders

local instance neZero_two : NeZero 2 := ⟨by decide⟩

/-- The links follow in the order of the puts. -/
def inTurn : List (Access 2) :=
  [.read 0, .put 0, .read 1, .put 1, .publish 0, .publish 1]

/-- Both clients read the hash before either of them puts it. -/
def overlapping : List (Access 2) :=
  [.read 0, .read 1, .put 1, .publish 1, .put 0, .publish 0]

end Orders

section TwoClients

variable {S : Services} {blockId : String} (messages : Fin 2 → Verification S blockId)
  (hash : String)

theorem run_inTurn : ∃ t, Run (clientStep messages) (.initial hash) inTurn t ∧
    ∀ i, ∃ hash, t.client i = .published hash := by
  refine ⟨_, trace_of_exec rfl, ?_⟩
  intro i
  match i with
  | 0 => exact ⟨_, rfl⟩
  | 1 => exact ⟨_, rfl⟩

theorem run_overlapping : ∃ t, Run (clientStep messages) (.initial hash) overlapping t ∧
    (∀ i, ∃ hash, t.client i = .published hash) ∧
      t.cell = verified S hash (messages 0).block := by
  refine ⟨_, trace_of_exec rfl, ?_, rfl⟩
  intro i
  match i with
  | 0 => exact ⟨_, rfl⟩
  | 1 => exact ⟨_, rfl⟩

end TwoClients

namespace Sample

def verificationServices : Services :=
  ObjectStore.services (fun text =>
    if text = "eyJrIjoiYSIsInNpIjoiYiJ9" then "\x7b\"k\":\"a\",\"si\":\"b\"\x7d"
    else if text = "eyJrIjoiYyIsInNpIjoiZCJ9" then "\x7b\"k\":\"c\",\"si\":\"d\"\x7d"
    else "") fun _ _ => none

def signature (k si : String) : Json := .obj [("k", .str k), ("si", .str si)]

/-- The block with the signature of its producer. -/
def committed : Json := .obj [("n", .num 1), ("v", .arr [signature "p" "s"])]

def blockHash : String :=
  (verificationServices.objectPut (verificationServices.dump committed) []).getD ""

def dht (key : String) : String :=
  if key = "block_1" then blockHash
  else if key = ".block" then
    (verificationServices.objectPut "block" [("1", blockHash)]).getD ""
  else ""

/-- The messages of two masters. -/
def messages : Fin 2 → Verification verificationServices "1"
  | 0 => {
      theFields := [("b", "1"), ("d", "eyJrIjoiYSIsInNpIjoiYiJ9")]
      block := signature "a" "b"
      blockId_eq := rfl
      block_eq := by decide +kernel }
  | 1 => {
      theFields := [("b", "1"), ("d", "eyJrIjoiYyIsInNpIjoiZCJ9")]
      block := signature "c" "d"
      blockId_eq := rfl
      block_eq := by decide +kernel }

theorem verificationServices_lawful : verificationServices.Lawful ObjectStore.contents :=
  ObjectStore.unsearched_lawful _

theorem verifiedBy_dht :
    VerifiedBy verificationServices ObjectStore.contents "1" [signature "p" "s"] dht := by
  have hS := verificationServices_lawful
  have hblock : dht (blockKey "1") = blockHash := rfl
  have hroot : verificationServices.objectPut "block" [("1", blockHash)] =
      some (dht (rootKey blockTree)) := by
    decide +kernel
  have hput : verificationServices.objectPut (verificationServices.dump committed) [] =
      some blockHash := by
    decide +kernel
  refine ⟨⟨[signature "p" "s"], ?_, .refl _⟩, ?_⟩
  · rw [hblock]
    have hcommitted : committed.WellFormed := ⟨by decide +kernel, by decide⟩
    exact ⟨_, _, _, hS.objectPut_eq_some.mp hput, hS.parse_dump hcommitted, rfl⟩
  · rw [hblock]
    exact ⟨_, _, hS.objects.put hroot, rfl⟩

/-- The history of clients that are through is that of the handlers of the two messages. -/
theorem exists_run_of_clients {log : List (Access 2)} {t : SharedCell.State 2 String}
    (h : Run (clientStep messages) (.initial (dht (blockKey "1"))) log t)
    (hdone : ∀ i, ∃ hash, t.client i = .published hash) :
    ∃ es s, Run (handlerStep "1" 2)
        (.initial (fun i => verifyBlock verificationServices (messages i).theFields) dht, [])
        es (s, log) ∧
      (∀ i, s.phase i = .finished) ∧
      Simulates verificationServices ObjectStore.contents messages s t := by
  rcases verifiedBy_dht.block with ⟨v, hv, -⟩
  exact exists_run verificationServices_lawful verifiedBy_dht.linked ⟨v, hv⟩ h hdone

end Sample

/-- The second handler reads what the first one has put, and the links follow in the same
order. -/
theorem verifications_kept_in_turn :
    ∃ es s, Run (handlerStep "1" 2)
        (.initial (fun i => verifyBlock Sample.verificationServices (Sample.messages i).theFields)
          Sample.dht, []) es (s, inTurn) ∧
      (∀ i, s.phase i = .finished) ∧
      VerifiedBy Sample.verificationServices ObjectStore.contents "1"
        ([Sample.signature "p" "s"] ++ List.ofFn fun i => (Sample.messages i).block) s.store := by
  rcases run_inTurn Sample.messages _ with ⟨t, hrun, hdone⟩
  rcases Sample.exists_run_of_clients hrun hdone with ⟨es, s, hhandlers, hfinished, -⟩
  refine ⟨es, s, hhandlers, hfinished, ?_⟩
  refine (verifications_kept_iff Sample.verificationServices_lawful Sample.messages
    Sample.verifiedBy_dht hhandlers hfinished).mpr ?_
  have hundisturbed : SharedCell.Undisturbed (([] ++ [.read 0] ++ [.put 0] ++ [.read 1] ++
      [.put 1] ++ [.publish 0] ++ [.publish 1] : List (Access 2))) := by
    simp only [SharedCell.undisturbed_publish, SharedCell.undisturbed_put,
      SharedCell.undisturbed_read, SharedCell.readers_read, List.mem_cons, true_or, and_true]
    exact SharedCell.undisturbed_nil
  exact ⟨hundisturbed, rfl⟩

/-- The second handler is done before the first one goes on, and its verification is gone. -/
theorem verification_lost :
    VerifiedBy Sample.verificationServices ObjectStore.contents "1" [Sample.signature "p" "s"]
        Sample.dht ∧
      ∃ es s, Run (handlerStep "1" 2)
          (.initial (fun i =>
            verifyBlock Sample.verificationServices (Sample.messages i).theFields) Sample.dht, [])
          es (s, overlapping) ∧
        (∀ i, s.phase i = .finished) ∧
        ¬ VerifiedBy Sample.verificationServices ObjectStore.contents "1"
          ([Sample.signature "p" "s"] ++ List.ofFn fun i => (Sample.messages i).block)
            s.store := by
  refine ⟨Sample.verifiedBy_dht, ?_⟩
  rcases run_overlapping Sample.messages _ with ⟨t, hrun, hdone, hcell⟩
  rcases Sample.exists_run_of_clients hrun hdone with ⟨es, s, hhandlers, hfinished, hsimulates⟩
  refine ⟨es, s, hhandlers, hfinished, ?_⟩
  have hS := Sample.verificationServices_lawful
  rw [hsimulates.verifiedBy_iff hS, hcell]
  rintro ⟨hperm, -⟩
  rcases Sample.verifiedBy_dht.block with ⟨v, hv, hv'⟩
  -- the object has two entries, and not three
  have hlength := hperm.length_eq
  rw [verificationsOf_of_carries hS (carries_verified hS hv ((Sample.messages 0).wellFormed hS)),
    List.length_append, hv'.length_eq] at hlength
  simp at hlength

end Verifications

end DecentralizedCloud.Storage
