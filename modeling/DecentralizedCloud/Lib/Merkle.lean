import Mathlib.Logic.Function.Basic

/-!
# Objects under the hashes of their contents

A store of immutable objects. An object has data, and links from names to other
objects, and it is found under a hash of these contents: patching an object makes
another one under another hash.

A tree of such objects is therefore changed from below. The object at the end of
a path is patched first, and then every object above it gets its link to the next
one replaced, by taking the link away and adding it again (`Lawful.replaceLink`).
-/

namespace Merkle

universe u

/-- Data and links of an object. -/
abbrev Contents (Hash Name Data : Type u) := Data × (Name → Option Hash)

/-- The requests to a store; `none` stands for an exception. -/
structure Requests (Hash Name Data : Type u) where
  put : Data → List (Name × Hash) → Option Hash
  addLink : Hash → Name → Hash → Option Hash
  rmLink : Hash → Name → Option Hash

variable {Hash Name Data : Type u} [DecidableEq Name]

/-- An object with a single link. -/
def single (name : Name) (hash : Hash) : Name → Option Hash :=
  Function.update (fun _ => none) name (some hash)

@[simp] theorem single_self (name : Name) (hash : Hash) : single name hash name = some hash :=
  Function.update_self ..

theorem single_of_ne {name name' : Name} (h : name' ≠ name) (hash : Hash) :
    single name hash name' = none :=
  Function.update_of_ne h ..

@[simp] theorem update_single (name : Name) (hash hash' : Hash) :
    Function.update (single name hash) name (some hash') = single name hash' :=
  Function.update_idem ..

theorem single_eq_some {name name' : Name} {hash hash' : Hash} :
    single name hash name' = some hash' ↔ name' = name ∧ hash' = hash := by
  by_cases h : name' = name
  · subst h
    rw [single_self, Option.some.injEq, eq_comm]
    simp
  · simp [single_of_ne h, h]

/-- A new object has the data and links that it was put with. A patch needs an object,
and one more for the link that is added, or the link that is taken away. -/
structure Lawful (R : Requests Hash Name Data) (contents : Hash → Option (Contents Hash Name Data)) :
    Prop where
  ext : ∀ {hash hash' object}, contents hash = some object → contents hash' = some object →
    hash = hash'
  exists_put : ∀ data {links : List (Name × Hash)}, (∀ link ∈ links, contents link.2 ≠ none) →
    ∃ hash, R.put data links = some hash
  put : ∀ {data links hash}, R.put data links = some hash →
    contents hash = some (data, fun name => links.lookup name)
  exists_addLink : ∀ {hash target} name, contents hash ≠ none → contents target ≠ none →
    ∃ hash', R.addLink hash name target = some hash'
  addLink : ∀ {hash name target hash'}, R.addLink hash name target = some hash' →
    contents target ≠ none ∧ ∃ data links, contents hash = some (data, links) ∧
      contents hash' = some (data, Function.update links name (some target))
  exists_rmLink : ∀ {hash data links name}, contents hash = some (data, links) →
    links name ≠ none → ∃ hash', R.rmLink hash name = some hash'
  rmLink : ∀ {hash name hash'}, R.rmLink hash name = some hash' →
    ∃ data links, contents hash = some (data, links) ∧ links name ≠ none ∧
      contents hash' = some (data, Function.update links name none)

namespace Lawful

variable {R : Requests Hash Name Data} {contents : Hash → Option (Contents Hash Name Data)}
  (h : Lawful R contents) {hash target : Hash} {data : Data} {links : Name → Option Hash}
  {name : Name}

include h

theorem put_nil (data : Data) :
    ∃ hash, R.put data [] = some hash ∧ contents hash = some (data, fun _ => none) := by
  have hknown : ∀ link ∈ ([] : List (Name × Hash)), contents link.2 ≠ none := nofun
  rcases h.exists_put data hknown with ⟨hash, hput⟩
  exact ⟨hash, hput, h.put hput⟩

/-- An object with one link can be put. -/
theorem put_single (data : Data) (name : Name) (htarget : contents target ≠ none) :
    ∃ hash, R.put data [(name, target)] = some hash ∧
      contents hash = some (data, single name target) := by
  have hknown : ∀ link ∈ [(name, target)], contents link.2 ≠ none := by
    intro link hlink
    rw [List.mem_singleton.mp hlink]
    exact htarget
  rcases h.exists_put data hknown with ⟨hash, hput⟩
  refine ⟨hash, hput, ?_⟩
  rw [h.put hput]
  congr 2
  funext name'
  by_cases hname : name' = name
  · subst hname
    simp
  · have hne : (name' == name) = false := by simpa using hname
    rw [List.lookup_cons, hne, single_of_ne hname]
    rfl

theorem patch_addLink (hhash : contents hash = some (data, links)) (name : Name)
    (htarget : contents target ≠ none) :
    ∃ hash', R.addLink hash name target = some hash' ∧
      contents hash' = some (data, Function.update links name (some target)) := by
  have hknown : contents hash ≠ none := by simp [hhash]
  rcases h.exists_addLink name hknown htarget with ⟨hash', hadd⟩
  rcases h.addLink hadd with ⟨-, data', links', hhash₁, hhash'⟩
  rw [hhash, Option.some.injEq, Prod.mk.injEq] at hhash₁
  rcases hhash₁ with ⟨rfl, rfl⟩
  exact ⟨hash', hadd, hhash'⟩

theorem patch_rmLink (hhash : contents hash = some (data, links)) (hname : links name ≠ none) :
    ∃ hash', R.rmLink hash name = some hash' ∧
      contents hash' = some (data, Function.update links name none) := by
  rcases h.exists_rmLink hhash hname with ⟨hash', hrm⟩
  rcases h.rmLink hrm with ⟨data', links', hhash₁, -, hhash'⟩
  rw [hhash, Option.some.injEq, Prod.mk.injEq] at hhash₁
  rcases hhash₁ with ⟨rfl, rfl⟩
  exact ⟨hash', hrm, hhash'⟩

/-- There is no link to take away. -/
theorem rmLink_eq_none (hname : ∀ data links, contents hash = some (data, links) →
    links name = none) : R.rmLink hash name = none := by
  cases hrm : R.rmLink hash name with
  | none => rfl
  | some hash' =>
      rcases h.rmLink hrm with ⟨data, links, hhash, hlink, -⟩
      exact absurd (hname data links hhash) hlink

/-- Taking a link away and adding it again replaces its target. -/
theorem replaceLink (hhash : contents hash = some (data, links)) (hname : links name ≠ none)
    (htarget : contents target ≠ none) :
    ∃ hash' hash'', R.rmLink hash name = some hash' ∧ R.addLink hash' name target = some hash'' ∧
      contents hash'' = some (data, Function.update links name (some target)) := by
  rcases h.patch_rmLink hhash hname with ⟨hash', hrm, hhash'⟩
  rcases h.patch_addLink hhash' name htarget with ⟨hash'', hadd, hhash''⟩
  rw [Function.update_idem] at hhash''
  exact ⟨hash', hash'', hrm, hadd, hhash''⟩

/-- A link that is there already leads back to the same object. -/
theorem addLink_self (hhash : contents hash = some (data, links)) (hname : links name = some target)
    (htarget : contents target ≠ none) : R.addLink hash name target = some hash := by
  rcases h.patch_addLink hhash name htarget with ⟨hash', hadd, hhash'⟩
  rw [← hname, Function.update_eq_self] at hhash'
  rw [hadd, h.ext hhash' hhash]

end Lawful

end Merkle
