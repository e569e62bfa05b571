import KeywordScope.Registry.Change

/-!
# Scopes

While the body of a member runs, only the members right below it can be used.

* `enterScope`: hides the member and its siblings and reveals its children. If that fails, the
  scope is left again.
* `leaveScope`: the way back; standalone keywords whose names were purged are bound again.
* `Guard`: a scope that is left once: by a release, or else when the guard is dropped.
-/

namespace KeywordScope
namespace Registry

variable {τ : Type} [BindingTable τ]

/-- Leaves the innermost scope. A member that was removed in the meantime has nothing to undo. -/
def leaveScope : Action τ Keyword.Id := do
  match (← get).scope with
  | [] => throw (.invalidOperation .noScope)
  | id :: scope =>
    modify ({ · with scope })
    if (← get).isMember id then
      ((← get).children id).forM hide
      ((← get).siblings id).forM reveal
    rebindStandalones
    return id

/-- Hides the member and its siblings and reveals its children. -/
def openScope (id : Keyword.Id) : Action τ Unit := do
  ((← get).siblings id).forM hide
  ((← get).children id).forM reveal

/-- Enters a member. -/
def enterScope (id : Keyword.Id) : Action τ Unit := do
  let entry ← getEntry id
  unless entry.isMember do
    throw (.invalidOperation (.enterStandalone entry.keyword.name))
  modify fun registry => { registry with scope := id :: registry.scope }
  match ← attempt (openScope id) with
  | .ok () => return ()
  | .error e =>
    discard (attempt leaveScope)
    throw e

end Registry

/-- A scope that is to be left once. -/
structure Guard where
  keyword : Keyword.Id
  released : Bool := false
  deriving DecidableEq, Repr

namespace Guard

open Registry

variable {τ : Type} [BindingTable τ]

/-- Enters a member and guards its scope. -/
def enter (id : Keyword.Id) : Action τ Guard := do
  enterScope id
  return { keyword := id }

/-- Leaves the scope. While the registry is in use nothing happens, and the guard stays armed. The
guard is over once it has left a scope, also if that was not the expected one. -/
def release (guard : Guard) (inUse : Bool) :
    StateM (Registry τ) (Except KeywordError Keyword.Id × Guard) := do
  if guard.released then
    return (.error (.invalidOperation (.scopeLeft guard.keyword)), guard)
  else if inUse then
    return (.error (.invalidState .inUse), guard)
  else
    let guard := { guard with released := true }
    let left : Except KeywordError Keyword.Id ← leaveScope.run
    match left with
    | .error e => return (.error e, guard)
    | .ok popped =>
      if popped = guard.keyword then return (.ok popped, guard)
      else return (.error (.invalidState (.outOfOrder guard.keyword popped)), guard)

/-- Gives the guard up: an armed one leaves the innermost scope, unless the registry is in use. -/
def drop (guard : Guard) (inUse : Bool) : StateM (Registry τ) Unit := do
  unless guard.released || inUse do
    let _left : Except KeywordError Keyword.Id ← leaveScope.run

end Guard

end KeywordScope
