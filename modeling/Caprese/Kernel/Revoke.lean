import Caprese.Kernel.Cap

/-!
# `Caprese.Kernel.Revoke`: the end of capabilities

`destroy_cap_slot`, `revoke_cap`, `destroy_cap` and `is_same_cap` of `cap_space.cpp`. There
is no reference count: whether a slot is the last one of its object is read off its two
neighbours in the derivation list.
-/

set_option autoImplicit false

namespace Caprese

open Lib Prog

def destroyObject (slot : SlotPtr) : K Unit := do
  match getCapType ((← get).cap slot) with
  | .mem => destroyMemoryObject slot
  | .task => destroyTaskObject slot
  | .endpoint => destroyEndpointObject slot
  | .pageTable => destroyPageTableObject slot
  | .virtPage => destroyVirtPageObject slot
  | .capSpace => destroyCapSpaceObject slot
  | .id => destroyIdObject slot
  | _ => stop .panic

/-- `push_free_slots` to the task that the slot belongs to. -/
def freeSlot (slot : SlotPtr) : K Unit := do
  let task ← deref ((← get).slotTask slot)
  pushFreeSlots task slot

def destroyCapSlot (slot : SlotPtr) : K Unit := do
  kassert (((← get).slots slot).isTail = true)
  checkSlotTask slot
  match ((← get).slots slot).prev with
  | some prevSlot =>
    if getCapType ((← get).cap prevSlot) = .zombie then
      modify fun k => k.setCap prevSlot (k.cap slot)
    else if !(← isSameObject prevSlot slot) then destroyObject slot
  | none => destroyObject slot
  let _ ← eraseThis slot
  freeSlot slot

/-- The walk to the end of a derivation list. -/
def lastSlot (slot : SlotPtr) : K SlotPtr :=
  kloop (fun slot => do
    match ((← get).slots slot).next with
    | some next => return .inl next
    | none => return .inr slot) slot

/-- The loops of `revoke_cap` from a later slot back to `slot`. -/
def backTo (slot : SlotPtr) (body : SlotPtr → K Unit) (capSlot : SlotPtr) : K Unit :=
  kloop (fun capSlot => do
    if capSlot = slot then return .inr ()
    else
      let prevSlot := ((← get).slots capSlot).prev
      body capSlot
      return .inl (← deref prevSlot)) capSlot

def revokeCap (slot : SlotPtr) : K Bool := do
  let type := getCapType ((← get).cap slot)
  if type ≠ .mem ∧ type ≠ .zombie then
    setErrno .eCapType
    return false
  checkSlotTask slot
  if type = .mem then
    backTo slot destroyCapSlot (← lastSlot slot)
  else
    let capSlot ← skipZombies (← deref ((← get).slots slot).next)
    let cap := (← get).cap capSlot
    backTo slot (fun capSlot => do
      let _ ← eraseThis capSlot
      freeSlot capSlot) capSlot
    storeCap slot cap
  return true

/-- Whether the neighbour of a slot holds the same object, where there is a neighbour. -/
def isSameNeighbor (neighbor : Option SlotPtr) (slot : SlotPtr) : K Bool := do
  match neighbor with
  | none => return false
  | some neighbor => isSameObject neighbor slot

/-- Whether one of the two neighbours does. -/
def hasSameNeighbor (slot : SlotPtr) : K Bool := do
  if ← isSameNeighbor ((← get).slots slot).prev slot then return true
  isSameNeighbor ((← get).slots slot).next slot

/-- `destroy_cap` behind the revocation. -/
def destroyRevoked (slot : SlotPtr) : K Bool := do
  if !(← hasSameNeighbor slot) then
    destroyObject slot
    freeSlot slot
    return true
  match ((← get).slots slot).prev with
  | some prevSlot =>
    if getCapType ((← get).cap prevSlot) = .zombie then
      let same ← isSameObject prevSlot slot
      kassert (same = true)
      return ← revokeCap prevSlot
  | none => pure ()
  let _ ← eraseThis slot
  freeSlot slot
  return true

def destroyCap (slot : SlotPtr) : K Bool := do
  let type := getCapType ((← get).cap slot)
  if type = .null then
    setErrno .eCapType
    return false
  if type = .mem ∨ type = .zombie then
    if !(← revokeCap slot) then return false
  destroyRevoked slot

def isSameCap (lhs rhs : SlotPtr) : K Bool := do
  match (← get).cap lhs, (← get).cap rhs with
  | .task lhs, .task rhs => return lhs.task = rhs.task
  | .endpoint lhs, .endpoint rhs => return lhs.endpoint = rhs.endpoint
  | .id lhs, .id rhs => return lhs.val1 = rhs.val1 && lhs.val2 = rhs.val2 && lhs.val3 = rhs.val3
  | _, _ => return false

end Caprese
