import Caprese.Kernel.CapSpace

/-!
# `Caprese.Kernel.CapTransfer`: capabilities that change hands

`transfer_cap`, `delegate_cap` and `copy_cap` of `cap_space.cpp`. The first two take the
slot that `lookup_cap` found, which may be none: `transfer_cap` asserts that there is one,
`delegate_cap` dereferences it.
-/

set_option autoImplicit false

namespace Caprese

open Lib Prog

/-- The check of a task that a capability comes from or goes to. -/
def isDead (task : Task) : Prop := task.state = .unused ∨ task.state = .killed

instance (task : Task) : Decidable (isDead task) := inferInstanceAs (Decidable (_ ∨ _))

/-- Neither an empty slot nor a zombie can be handed over. -/
def isFixed (cap : Capability) : Prop := getCapType cap = .null ∨ getCapType cap = .zombie

instance (cap : Capability) : Decidable (isFixed cap) := inferInstanceAs (Decidable (_ ∨ _))

def transferCap (dstTask : TaskPtr) (srcSlot : Option SlotPtr) : K (Option SlotPtr) := do
  kassert (srcSlot ≠ none)
  let srcSlot ← deref srcSlot
  let srcTask ← deref ((← get).slotTask srcSlot)
  if isFixed ((← get).cap srcSlot) then
    setErrno .eCapType
    return none
  if isDead ((← get).tasks dstTask) then
    setErrno .eIllState
    return none
  if isDead ((← get).tasks srcTask) then
    setErrno .eIllState
    return none
  match ← insertCap dstTask ((← get).cap srcSlot) with
  | none => return none
  | some dstSlot =>
    replace dstSlot srcSlot
    pushFreeSlots srcTask srcSlot
    return some dstSlot

def delegateCap (task : TaskPtr) (srcSlot : Option SlotPtr) : K (Option SlotPtr) := do
  let srcSlot ← deref srcSlot
  let srcTask ← deref ((← get).slotTask srcSlot)
  if isFixed ((← get).cap srcSlot) then
    setErrno .eCapType
    return none
  if isDead ((← get).tasks task) then
    setErrno .eIllState
    return none
  if isDead ((← get).tasks srcTask) then
    setErrno .eIllState
    return none
  match ← insertCap task ((← get).cap srcSlot) with
  | none => return none
  | some dstSlot =>
    modify fun k => k.setCap srcSlot .zombie
    insertAfter srcSlot dstSlot
    return some dstSlot

/-- The copies of `copy_cap` that stay linked to their source. -/
def copyLinked (srcTask : TaskPtr) (srcSlot : SlotPtr) : K (Option SlotPtr) := do
  let dstSlot ← insertCap srcTask ((← get).cap srcSlot)
  kassert (dstSlot ≠ none)
  insertAfter srcSlot (← deref dstSlot)
  return dstSlot

def copyCap (srcSlot : SlotPtr) : K (Option SlotPtr) := do
  let srcTask ← deref ((← get).slotTask srcSlot)
  let dstSlot ← match getCapType ((← get).cap srcSlot) with
    | .task => copyLinked srcTask srcSlot
    | .endpoint => copyLinked srcTask srcSlot
    | .id => do insertCap srcTask ((← get).cap srcSlot)
    | _ => pure none
  if dstSlot = none then
    setErrno .eCapType
    return none
  return dstSlot

end Caprese
